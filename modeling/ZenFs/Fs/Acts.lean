import ZenFs.Fs.Layout

/-!
# One file at work

What a file does to the layout when it takes a zone, writes to it, records what it has
written and gives the zone back, and that the other files do not notice.
-/

namespace ZenFs

namespace Fs

variable {zs : Nat} {leak : ZoneId → Nat} {fs fs₁ fs₂ fs' : Fs} {r : Ref} {i : ZoneId}
  {G : Geometry} {new : List ZoneExtent} {d : Zbd}

/-- The file of an open writer is live. -/
def OpenLive (fs : Fs) : Prop := ∀ k w, OpenAt fs k w → w.file ∈ fs.live

theorem Spending.openLive (h : Spending leak fs) : OpenLive fs := fun _ _ hw ↦ h.live_of_openAt hw

theorem OpenLive.congr (h : OpenLive fs) (hw : ∀ k w', OpenAt fs' k w' → ∃ w, OpenAt fs k w ∧
    w.key = w'.key) (hl : fs'.live = fs.live) : OpenLive fs' := by
  intro k w' hw'
  obtain ⟨w, hwo, hk⟩ := hw k w' hw'
  have hf : w.file = w'.file := congrArg Prod.fst hk
  rw [hl, ← hf]
  exact h k w hwo

/-! ## One file at work -/

/-- The file `r` has recorded the extents `new` in its zone, and may have taken a zone
or given it back. -/
structure Acts (fs : Fs) (r : Ref) (new : List ZoneExtent) (fs' : Fs) : Prop where
  live : fs'.live = fs.live
  nextRef : fs'.nextRef = fs.nextRef
  heap : ∀ r' ≠ r, (fs'.heap r').layout = (fs.heap r').layout
  zbd : fs.zbd.Advances (fs.heap r).activeZone fs'.zbd
  sane : fs'.zbd.Sane
  extents : (fs'.heap r).extents = (fs.heap r).extents ++ new
  apart : new.Pairwise ZoneExtent.Apart
  inside : ∀ e ∈ new, fs'.zbd.Inside e
  pos : ∀ e ∈ new, 0 < e.length
  behind : ∀ e ∈ new, (fs.heap r).activeZone = some e.zone ∧ (fs.heap r).extentStart ≤ e.start

namespace Acts

theorem heap_eq (h : Acts fs r new fs') {r' : Ref} (hr : r' ≠ r) :
    (fs'.heap r').extents = (fs.heap r').extents ∧
    (fs'.heap r').activeZone = (fs.heap r').activeZone ∧
      (fs'.heap r').extentStart = (fs.heap r').extentStart ∧
      (fs'.heap r').extentFilepos = (fs.heap r').extentFilepos ∧
      (fs'.heap r').fileSize = (fs.heap r').fileSize ∧
      (fs'.heap r').openForWr = (fs.heap r').openForWr :=
  ⟨(congrArg ZoneFile.extents (h.heap r' hr) :), (congrArg ZoneFile.activeZone (h.heap r' hr) :),
    (congrArg ZoneFile.extentStart (h.heap r' hr) :),
    (congrArg ZoneFile.extentFilepos (h.heap r' hr) :),
    (congrArg ZoneFile.fileSize (h.heap r' hr) :), (congrArg ZoneFile.openForWr (h.heap r' hr) :)⟩

theorem mem_extents (h : Acts fs r new fs') {r' : Ref} {e : ZoneExtent}
    (he : e ∈ (fs'.heap r').extents) : e ∈ (fs.heap r').extents ∨ r' = r ∧ e ∈ new := by
  by_cases hr : r' = r
  · subst hr
    rw [h.extents, List.mem_append] at he
    exact he.imp_right fun hn ↦ ⟨rfl, hn⟩
  · rw [(h.heap_eq hr).1] at he
    exact .inl he

theorem keeps (h : Acts fs r new fs') (hl : Stored fs) : Keeps fs fs' where
  nextRef := h.nextRef.ge
  live r' hr' _ := h.live ▸ hr'
  recorded := by
    intro r' hr' _
    have hold : fs'.zbd.contents (fs.heap r').extents = fs.recorded r' :=
      h.zbd.contents (hl.inside r' hr')
    show fs.recorded r' <+: fs'.zbd.contents (fs'.heap r').extents
    by_cases hr : r' = r
    · subst hr
      rw [h.extents, Zbd.contents_append, hold]
      exact List.prefix_append _ _
    · rw [(h.heap_eq hr).1, hold]

/-- What is new comes behind all that is recorded in its zone. -/
theorem apart_new (h : Acts fs r new fs') (hl : Laid zs fs) (hr : r ∈ fs.live) {r' : Ref}
    (hr' : r' ∈ fs.live) {e e' : ZoneExtent} (he : e ∈ (fs.heap r').extents) (he' : e' ∈ new) :
    e.Apart e' := by
  obtain ⟨hz, hs⟩ := h.behind e' he'
  refine h.sane.apart_of_front (h.zbd.inside (hl.inside r' hr' e he)) (h.inside e' he') fun heq ↦ ?_
  exact ((hl.active r hr _ hz).front r' hr' e he heq).trans hs

theorem stored (h : Acts fs r new fs') (hl : Laid zs fs) (hr : r ∈ fs.live) : Stored fs' where
  sane := h.sane
  inside := by
    intro r' hr' e he
    rcases h.mem_extents he with he | ⟨-, he⟩
    · exact h.zbd.inside (hl.inside r' (h.live ▸ hr') e he)
    · exact h.inside e he
  pos := by
    intro r' hr' e he
    rcases h.mem_extents he with he | ⟨-, he⟩
    · exact hl.pos r' (h.live ▸ hr') e he
    · exact h.pos e he
  apart := by
    intro r' hr'
    rw [h.live] at hr'
    by_cases hne : r' = r
    · subst hne
      rw [h.extents, List.pairwise_append]
      exact ⟨hl.apart r' hr', h.apart, fun e he e' he' ↦ h.apart_new hl hr hr' he he'⟩
    · rw [(h.heap_eq hne).1]
      exact hl.apart r' hr'
  alone := by
    intro r₁ hr₁ r₂ hr₂ hne e he e' he'
    rw [h.live] at hr₁ hr₂
    rcases h.mem_extents he with he₁ | ⟨rfl, he₁⟩
    · rcases h.mem_extents he' with he₂ | ⟨rfl, he₂⟩
      · exact hl.alone r₁ hr₁ r₂ hr₂ hne e he₁ e' he₂
      · exact h.apart_new hl hr hr₁ he₁ he₂
    · rcases h.mem_extents he' with he₂ | ⟨rfl, he₂⟩
      · exact (h.apart_new hl hr hr₂ he₂ he₁).symm
      · exact absurd rfl hne

end Acts

/-- And what becomes of the zone and the writers of the file. -/
structure Goes (zs : Nat) (fs : Fs) (r : Ref) (new : List ZoneExtent) (fs' : Fs) : Prop
    extends Acts fs r new fs' where
  writable : fs'.zbd.Writable
  env : fs'.env.Orderly zs
  zone : ∀ i, (fs'.heap r).activeZone = some i →
    i < fs.zbd.nrZones ∧ (fs'.zbd.zones i).busy = true ∧
      (fs.zbd.zones i).start ≤ (fs'.heap r).extentStart ∧
      (fs'.heap r).extentStart ≤ (fs'.zbd.zones i).wp
  taken : ∀ i, (fs'.heap r).activeZone = some i →
    (fs.heap r).activeZone = some i ∧ (fs.heap r).extentStart ≤ (fs'.heap r).extentStart ∧
        (∀ e ∈ new, e.start + e.length ≤ (fs'.heap r).extentStart) ∨
      (fs.zbd.zones i).busy = false ∧ (fs.zbd.zones i).wp ≤ (fs'.heap r).extentStart ∧ new = []
  writers : ∀ k w', OpenAt fs' k w' → ∃ w, OpenAt fs k w ∧ w.key = w'.key
  idle : (fs'.heap r).openForWr = false → (fs'.heap r).activeZone = none
  opened : ∀ k w, OpenAt fs' k w → w.file = r → (fs'.heap r).openForWr = true
  direct : ∀ k w i, OpenAt fs' k w → w.file = r → w.buffered = false →
    (fs'.heap r).activeZone = some i →
    (fs'.heap r).extentStart + ((fs'.heap r).fileSize - (fs'.heap r).extentFilepos) ≤
    (fs'.zbd.zones i).wp
  buffered : ∀ k w i, OpenAt fs' k w → w.file = r → w.buffered = true →
    (fs'.heap r).activeZone = some i → 0 < (fs'.zbd.zones i).capacity

namespace Goes

/-- The zones of the other files are left alone. -/
theorem others (h : Goes zs fs r new fs') (hl : Laid zs fs) (hr : r ∈ fs.live) {r' : Ref}
    (hr' : r' ∈ fs.live) (hne : r' ≠ r) (hi : (fs.heap r').activeZone = some i) :
    (fs'.zbd.zones i).busy = true ∧ (fs'.zbd.zones i).wp = (fs.zbd.zones i).wp ∧
      (fs'.zbd.zones i).capacity = (fs.zbd.zones i).capacity :=
  h.zbd.others i (fun hi' ↦ hne (hl.exclusive r' hr' r hr i hi hi')) (hl.active r' hr' i hi).busy

/-- No other file has the zone. -/
theorem exclusive (h : Goes zs fs r new fs') (hl : Laid zs fs) (hr : r ∈ fs.live) {r' : Ref}
    (hr' : r' ∈ fs.live) (hi : (fs'.heap r).activeZone = some i)
    (hi' : (fs.heap r').activeZone = some i) : r' = r := by
  rcases h.taken i hi with ⟨hi₁, -⟩ | ⟨hb, -⟩
  · exact hl.exclusive r' hr' r hr i hi' hi₁
  · exact absurd ((hl.active r' hr' i hi').busy.symm.trans hb) (by simp)

theorem laid (h : Goes zs fs r new fs') (hl : Laid zs fs) (hr : r ∈ fs.live)
    (hw : OpenLive fs) : Laid zs fs' where
  toStored := h.stored hl hr
  size := h.zbd.zoneSize.trans hl.size
  writable := h.writable
  env := h.env
  active := by
    intro r' hr' i hi
    rw [h.live] at hr'
    by_cases hne : r' = r
    · subst hne
      obtain ⟨hz, hb, hs, hwp⟩ := h.zone i hi
      refine ⟨h.zbd.nrZones ▸ hz, hb, h.zbd.start i ▸ hs, hwp, fun r₁ hr₁ e he heq ↦ ?_⟩
      rw [h.live] at hr₁
      rcases h.taken i hi with ⟨hi₁, hle, hnew⟩ | ⟨-, hle, hnew⟩
      · rcases h.mem_extents he with he | ⟨-, he⟩
        · exact ((hl.active r' hr' i hi₁).front r₁ hr₁ e he heq).trans hle
        · exact hnew e he
      · rcases h.mem_extents he with he | ⟨-, he⟩
        · have := (hl.inside r₁ hr₁ e he).stop
          rw [heq] at this
          exact this.trans hle
        · rw [hnew] at he
          cases he
    · obtain ⟨-, ha, hs, -⟩ := h.heap_eq hne
      rw [ha] at hi
      have hold := hl.active r' hr' i hi
      obtain ⟨hb, hwp, -⟩ := h.others hl hr hr' hne hi
      refine ⟨h.zbd.nrZones ▸ hold.zone, hb, ?_, ?_, fun r₁ hr₁ e he heq ↦ ?_⟩
      · rw [h.zbd.start, hs]
        exact hold.start
      · rw [hwp, hs]
        exact hold.wp
      · rw [h.live] at hr₁
        rw [hs]
        rcases h.mem_extents he with he | ⟨-, he⟩
        · exact hold.front r₁ hr₁ e he heq
        · have hz := (h.behind e he).1
          rw [heq] at hz
          exact absurd (hl.exclusive r' hr' r hr i hi hz) hne
  exclusive := by
    intro r₁ hr₁ r₂ hr₂ i hi₁ hi₂
    rw [h.live] at hr₁ hr₂
    by_cases h₁ : r₁ = r
    · subst h₁
      by_cases h₂ : r₂ = r₁
      · exact h₂.symm
      · rw [(h.heap_eq h₂).2.1] at hi₂
        exact (h.exclusive hl hr hr₂ hi₁ hi₂).symm
    · rw [(h.heap_eq h₁).2.1] at hi₁
      by_cases h₂ : r₂ = r
      · subst h₂
        exact h.exclusive hl hr hr₁ hi₂ hi₁
      · rw [(h.heap_eq h₂).2.1] at hi₂
        exact hl.exclusive r₁ hr₁ r₂ hr₂ i hi₁ hi₂
  idle := by
    intro r' hr' ho
    by_cases hne : r' = r
    · subst hne
      exact h.idle ho
    · obtain ⟨-, ha, -, -, -, hop⟩ := h.heap_eq hne
      rw [ha]
      exact hl.idle r' (h.live ▸ hr') (hop ▸ ho)
  opened := by
    intro k w' hw'
    by_cases hne : w'.file = r
    · rw [hne]
      exact h.opened k w' hw' hne
    · obtain ⟨w, hwo, hk⟩ := h.writers k w' hw'
      have hf : w.file = w'.file := congrArg Prod.fst hk
      rw [(h.heap_eq hne).2.2.2.2.2, ← hf]
      exact hl.opened k w hwo
  unique := by
    intro k w' k₁ w₁' hw' hw₁' hf
    obtain ⟨w, hwo, hk⟩ := h.writers k w' hw'
    obtain ⟨w₁, hwo₁, hk₁⟩ := h.writers k₁ w₁' hw₁'
    exact hl.unique k w k₁ w₁ hwo hwo₁
      ((congrArg Prod.fst hk).trans (hf.trans (congrArg Prod.fst hk₁).symm))
  direct := by
    intro k w' i hw' hb hi
    by_cases hne : w'.file = r
    · rw [hne] at hi ⊢
      exact h.direct k w' i hw' hne hb hi
    · obtain ⟨w, hwo, hk⟩ := h.writers k w' hw'
      have hf : w.file = w'.file := congrArg Prod.fst hk
      obtain ⟨-, ha, hs, hfp, hsz, -⟩ := h.heap_eq hne
      rw [ha, ← hf] at hi
      rw [hs, hfp, hsz, (h.others hl hr (hw k w hwo) (hf ▸ hne) hi).2.1, ← hf]
      exact hl.direct k w i hwo ((congrArg (fun p ↦ p.2.1) hk).trans hb) hi
  buffered := by
    intro k w' i hw' hb hi
    by_cases hne : w'.file = r
    · rw [hne] at hi
      exact h.buffered k w' i hw' hne hb hi
    · obtain ⟨w, hwo, hk⟩ := h.writers k w' hw'
      have hf : w.file = w'.file := congrArg Prod.fst hk
      rw [(h.heap_eq hne).2.1, ← hf] at hi
      rw [(h.others hl hr (hw k w hwo) (hf ▸ hne) hi).2.2]
      exact hl.buffered k w i hwo ((congrArg (fun p ↦ p.2.1) hk).trans hb) hi

/-- A file that does nothing. -/
theorem refl (hl : Laid zs fs) (hr : r ∈ fs.live) : Goes zs fs r [] fs where
  live := rfl
  nextRef := rfl
  heap _ _ := rfl
  zbd := .refl _ _
  sane := hl.sane
  extents := (List.append_nil _).symm
  apart := .nil
  inside _ he := absurd he List.not_mem_nil
  pos _ he := absurd he List.not_mem_nil
  behind _ he := absurd he List.not_mem_nil
  writable := hl.writable
  env := hl.env
  zone i hi := by
    have ha := hl.active r hr i hi
    exact ⟨ha.zone, ha.busy, ha.start, ha.wp⟩
  taken _ hi := .inl ⟨hi, le_rfl, fun _ he ↦ absurd he List.not_mem_nil⟩
  writers _ w hw := ⟨w, hw, rfl⟩
  idle := hl.idle r hr
  opened _ w hw hf := hf ▸ hl.opened _ w hw
  direct k w i hw hf := hf ▸ hl.direct k w i hw
  buffered k w i hw hf := hf ▸ hl.buffered k w i hw

theorem pushExtent (hl : Laid zs fs) {k : Handle} {w : Writer} (hw : OpenAt fs k w)
    (hb : w.buffered = false) (hr : w.file ∈ fs.live) :
    ∃ new, Goes zs fs w.file new (fs.pushExtent w.file) := by
  unfold Fs.pushExtent
  dsimp only
  split
  · exact ⟨[], refl hl hr⟩
  · rename_i i hi
    split
    · exact ⟨[], refl hl hr⟩
    · rename_i hlen
      have ha := hl.active _ hr i hi
      have hd := hl.direct k w i hw hb hi
      have hz := Zbd.sameZones_addUsed fs.zbd i
        ((fs.heap w.file).fileSize - (fs.heap w.file).extentFilepos)
      have hbusy : ∀ n j, ((fs.zbd.addUsed i n).zones j).busy = (fs.zbd.zones j).busy := by
        simp [Zbd.addUsed_zones]
      refine ⟨[⟨(fs.heap w.file).extentStart,
        (fs.heap w.file).fileSize - (fs.heap w.file).extentFilepos, i⟩], ?_⟩
      exact {
        live := rfl
        nextRef := rfl
        heap := fun r' hne ↦ by simp [setFile, hne]
        zbd := .of_sameZones hz fun j _ hj ↦ (hbusy _ j).trans hj
        sane := hz.sane hl.sane
        extents := by simp [setFile]
        apart := List.pairwise_singleton _ _
        inside := by
          rintro e he
          obtain rfl := List.mem_singleton.mp he
          exact hz.inside ⟨ha.zone, ha.start, hd⟩
        pos := by
          rintro e he
          obtain rfl := List.mem_singleton.mp he
          exact Nat.pos_of_ne_zero hlen
        behind := by
          rintro e he
          obtain rfl := List.mem_singleton.mp he
          exact ⟨hi, le_rfl⟩
        writable := hz.writable hl.writable
        env := hl.env
        zone := by
          intro j hj
          obtain rfl : i = j := by simpa [setFile, hi] using hj
          refine ⟨ha.zone, (hbusy _ i).trans ha.busy, ?_, ?_⟩
          · simpa [setFile] using ha.start.trans ha.wp
          · simp [setFile, Zbd.addUsed_zones]
        taken := by
          intro j hj
          obtain rfl : i = j := by simpa [setFile, hi] using hj
          refine .inl ⟨hi, by simpa [setFile] using ha.wp, fun e he ↦ ?_⟩
          obtain rfl := List.mem_singleton.mp he
          simpa [setFile] using hd
        writers := fun _ w' hw' ↦ ⟨w', ⟨hw'.writer, hw'.isOpen⟩, rfl⟩
        idle := by simpa [setFile] using hl.idle _ hr
        opened := fun k' w' hw' hf ↦ by
          simpa [setFile, hf] using hl.opened k' w' ⟨hw'.writer, hw'.isOpen⟩
        direct := by
          intro k' w' j _ _ _ hj
          obtain rfl : i = j := by simpa [setFile, hi] using hj
          simp [setFile, Zbd.addUsed_zones]
        buffered := by
          intro k' w' j hw' hf hb' _
          have hk : k' = k := hl.unique k' w' k w ⟨hw'.writer, hw'.isOpen⟩ hw hf
          subst hk
          obtain rfl : w = w' := Option.some.inj (hw.writer.symm.trans hw'.writer)
          exact absurd (hb.symm.trans hb') (by simp) }

theorem closeActiveZone (hl : Laid zs fs) (hr : r ∈ fs.live) :
    Goes zs fs r [] (fs.closeActiveZone r) := by
  unfold Fs.closeActiveZone
  split
  · exact refl hl hr
  · rename_i i hi
    have hz := Zbd.sameZones_setBusy fs.zbd i false
    have hnone : ((({ fs with zbd := fs.zbd.setBusy i false } : Fs).setFile r
        { fs.heap r with activeZone := none }).heap r).activeZone = none := by
      simp [setFile]
    exact {
      live := rfl
      nextRef := rfl
      heap := fun r' hne ↦ by simp [setFile, hne]
      zbd := .of_sameZones hz fun j hj hb ↦ by
        have hji : j ≠ i := fun h ↦ hj (h ▸ hi)
        simpa [setFile, Zbd.setBusy, hji] using hb
      sane := hz.sane hl.sane
      extents := by simp [setFile]
      apart := .nil
      inside := fun _ he ↦ absurd he List.not_mem_nil
      pos := fun _ he ↦ absurd he List.not_mem_nil
      behind := fun _ he ↦ absurd he List.not_mem_nil
      writable := hz.writable hl.writable
      env := hl.env
      zone := fun j hj ↦ by rw [hnone] at hj; cases hj
      taken := fun j hj ↦ by rw [hnone] at hj; cases hj
      writers := fun _ w' hw' ↦ ⟨w', ⟨hw'.writer, hw'.isOpen⟩, rfl⟩
      idle := fun _ ↦ hnone
      opened := fun k w hw hf ↦ by
        simpa [setFile, hf] using hl.opened k w ⟨hw.writer, hw.isOpen⟩
      direct := fun _ _ j _ _ _ hj ↦ by rw [hnone] at hj; cases hj
      buffered := fun _ _ j _ _ _ hj ↦ by rw [hnone] at hj; cases hj }

end Goes

/-! ## Zones of nobody -/

/-- Zones that no file has for itself are finished. -/
theorem Laid.advance (hl : Laid zs fs) (ho : OpenLive fs) (hd : fs.zbd.Advances none d)
    (hs : d.Sane) (hw : d.Writable) : Laid zs { fs with zbd := d } where
  sane := hs
  inside r hr e he := hd.inside (hl.inside r hr e he)
  pos := hl.pos
  apart := hl.apart
  alone := hl.alone
  size := hd.zoneSize.trans hl.size
  writable := hw
  env := hl.env
  active := by
    intro r hr i hi
    have ha := hl.active r hr i hi
    obtain ⟨hb, hwp, -⟩ := hd.others i (by simp) ha.busy
    exact ⟨hd.nrZones ▸ ha.zone, hb, (hd.start i).le.trans ha.start, ha.wp.trans hwp.ge, ha.front⟩
  exclusive := hl.exclusive
  idle := hl.idle
  opened k w hw := hl.opened k w ⟨hw.writer, hw.isOpen⟩
  unique k w k' w' hw hw' := hl.unique k w k' w' ⟨hw.writer, hw.isOpen⟩ ⟨hw'.writer, hw'.isOpen⟩
  direct k w i hw hb hi := (hl.direct k w i ⟨hw.writer, hw.isOpen⟩ hb hi).trans (hd.wp i)
  buffered := by
    intro k w i hw hb hi
    have hwo : OpenAt fs k w := ⟨hw.writer, hw.isOpen⟩
    have ha := hl.active _ (ho k w hwo) i hi
    exact (hl.buffered k w i hwo hb hi).trans_le (hd.others i (by simp) ha.busy).2.2.ge

theorem Stored.keeps_advance (hl : Stored fs) (hd : fs.zbd.Advances none d) :
    Keeps fs { fs with zbd := d } :=
  ⟨le_rfl, fun _ hr _ ↦ hr, fun r hr _ ↦ by
    show fs.zbd.contents _ <+: d.contents _
    rw [hd.contents (hl.inside r hr)]⟩

/-- The environment goes on. -/
theorem Laid.setEnv (hl : Laid zs fs) {env : Env} (he : env.Orderly zs) :
    Laid zs { fs with env := env } where
  toStored := ⟨hl.sane, hl.inside, hl.pos, hl.apart, hl.alone⟩
  size := hl.size
  writable := hl.writable
  env := he
  active r hr i hi := by
    have ha := hl.active r hr i hi
    exact ⟨ha.zone, ha.busy, ha.start, ha.wp, ha.front⟩
  exclusive := hl.exclusive
  idle := hl.idle
  opened k w hw := hl.opened k w ⟨hw.writer, hw.isOpen⟩
  unique k w k' w' hw hw' := hl.unique k w k' w' ⟨hw.writer, hw.isOpen⟩ ⟨hw'.writer, hw'.isOpen⟩
  direct k w i hw := hl.direct k w i ⟨hw.writer, hw.isOpen⟩
  buffered k w i hw := hl.buffered k w i ⟨hw.writer, hw.isOpen⟩

/-- What a step has to show: the layout is kept, and so is what is recorded. -/
structure Safe (zs : Nat) (fs fs' : Fs) : Prop where
  laid : Laid zs fs'
  keeps : Keeps fs fs'
  openLive : OpenLive fs'

namespace Safe

theorem refl (hl : Laid zs fs) (ho : OpenLive fs) : Safe zs fs fs := ⟨hl, .refl fs, ho⟩

theorem trans (h : Safe zs fs fs₁) (h' : Safe zs fs₁ fs₂) (hf : ∀ r ∈ fs.live, r < fs.nextRef) :
    Safe zs fs fs₂ :=
  ⟨h'.laid, h.keeps.trans h'.keeps hf, h'.openLive⟩

theorem of_goes (h : Goes zs fs r new fs') (hl : Laid zs fs) (ho : OpenLive fs) (hr : r ∈ fs.live) :
    Safe zs fs fs' :=
  ⟨h.laid hl hr ho, h.keeps hl.toStored, ho.congr h.writers h.live⟩

theorem of_still (h : Still fs fs') (hl : Laid zs fs) (ho : OpenLive fs') : Safe zs fs fs' :=
  ⟨h.laid hl, h.keeps, ho⟩

theorem of_same (h : Still fs fs') (hl : Laid zs fs) (ho : OpenLive fs)
    (hlive : fs'.live = fs.live) : Safe zs fs fs' := of_still h hl (ho.congr h.writers hlive)

theorem of_metaOnly (h : MetaOnly fs fs') (hl : Laid zs fs) (ho : OpenLive fs) : Safe zs fs fs' :=
  of_same (.of_metaOnly h) hl ho h.live

theorem setEnv (hl : Laid zs fs) (ho : OpenLive fs) {env : Env} (he : env.Orderly zs) :
    Safe zs fs { fs with env := env } :=
  ⟨hl.setEnv he, ⟨le_rfl, fun _ hr _ ↦ hr, fun _ _ _ ↦ List.prefix_rfl⟩, fun k w hw ↦
    ho k w ⟨hw.writer, hw.isOpen⟩⟩

theorem finishZones (hl : Laid zs fs) (ho : OpenLive fs) (hf : ∀ r ∈ fs.live, r < fs.nextRef)
    (is : List ZoneId) : Safe zs fs (fs.finishZones is) := by
  induction is generalizing fs with
  | nil => exact refl hl ho
  | cons i is ih =>
      have hif : fs.finishZones (i :: is) = Fs.finishZones
          (if fs.zbd.finishable i then { fs with zbd := fs.zbd.finish i }.note (.finish i)
            else fs) is := rfl
      rw [hif]
      split
      · rename_i hfin
        have hd := Zbd.Advances.finish hl.sane hfin
        have h₁ : Safe zs fs { fs with zbd := fs.zbd.finish i } :=
          ⟨hl.advance ho hd (hl.sane.finish i) (hl.writable.finish hl.sane hfin),
            hl.keeps_advance hd, fun k w hw ↦ ho k w ⟨hw.writer, hw.isOpen⟩⟩
        have h₂ := h₁.trans (of_metaOnly (metaOnly_note _ (.finish i)) h₁.laid h₁.openLive) hf
        exact h₂.trans (ih h₂.laid h₂.openLive hf) hf
      · exact ih hl ho hf

end Safe

/-! ## The write paths -/

theorem setBusy_zones (d : Zbd) (i j : ZoneId) (b : Bool) :
    (d.setBusy i b).zones j = if j = i then { d.zones i with busy := b } else d.zones j := by
  by_cases h : j = i
  · subst h
    simp [Zbd.setBusy]
  · simp [Zbd.setBusy, h]

/-- A file takes a zone that is free. -/
theorem Goes.setActiveZone (hl : Laid zs fs) (hop : (fs.heap r).openForWr = true)
    (he : fs.zbd.eligible i = true) :
    Goes zs fs r [] ({ fs with zbd := fs.zbd.setBusy i true }.setActiveZone r i) := by
  simp only [Zbd.eligible, Bool.and_eq_true, decide_eq_true_eq, Bool.not_eq_true',
    Bool.or_eq_true] at he
  obtain ⟨⟨hi, hb⟩, hroom⟩ := he
  have hz := Zbd.sameZones_setBusy fs.zbd i true
  have hwp := hl.sane.wp i hi
  have hcap : 0 < (fs.zbd.zones i).capacity := by
    rcases hroom with ⟨-, hfull⟩ | hempty
    · simpa [Zone.isFull, Nat.pos_iff_ne_zero] using hfull
    · exact hl.writable i hi hempty
  have hactive : ∀ j,
    ((({ fs with zbd := fs.zbd.setBusy i true } : Fs).setActiveZone r i).heap r).activeZone =
      some j → i = j := by
    simp [Fs.setActiveZone, setFile]
  exact {
    live := rfl
    nextRef := rfl
    heap := fun r' hne ↦ by simp [Fs.setActiveZone, setFile, hne]
    zbd := .of_sameZones hz fun j _ hj ↦ by
      show ((fs.zbd.setBusy i true).zones j).busy = true
      rw [setBusy_zones]
      split
      · rfl
      · exact hj
    sane := hz.sane hl.sane
    extents := by simp [Fs.setActiveZone, setFile]
    apart := .nil
    inside := fun _ he ↦ absurd he List.not_mem_nil
    pos := fun _ he ↦ absurd he List.not_mem_nil
    behind := fun _ he ↦ absurd he List.not_mem_nil
    writable := hz.writable hl.writable
    env := hl.env
    zone := by
      intro j hj
      obtain rfl := hactive j hj
      simp [Fs.setActiveZone, setFile, Zbd.setBusy, hi, hwp.1]
    taken := by
      intro j hj
      obtain rfl := hactive j hj
      exact .inr ⟨hb, by simp [Fs.setActiveZone, setFile, Zbd.setBusy], rfl⟩
    writers := fun _ w' hw' ↦ ⟨w', ⟨hw'.writer, hw'.isOpen⟩, rfl⟩
    idle := fun hcl ↦ by simp [Fs.setActiveZone, setFile, hop] at hcl
    opened := fun _ _ _ _ ↦ by simpa [Fs.setActiveZone, setFile] using hop
    direct := by
      intro _ _ j _ _ _ hj
      obtain rfl := hactive j hj
      simp [Fs.setActiveZone, setFile, Zbd.setBusy]
    buffered := by
      intro _ _ j _ _ _ hj
      obtain rfl := hactive j hj
      simpa [Fs.setActiveZone, setFile, Zbd.setBusy] using hcap }

theorem finishZones_frame (fs : Fs) (is : List ZoneId) :
    (fs.finishZones is).live = fs.live ∧ (fs.finishZones is).nextRef = fs.nextRef ∧
      (fs.finishZones is).heap = fs.heap ∧ (fs.finishZones is).writers = fs.writers := by
  induction is generalizing fs with
  | nil => exact ⟨rfl, rfl, rfl, rfl⟩
  | cons i is ih =>
      have hif : fs.finishZones (i :: is) = Fs.finishZones
          (if fs.zbd.finishable i then { fs with zbd := fs.zbd.finish i }.note (.finish i)
            else fs) is := rfl
      rw [hif]
      split
      · exact ih _
      · exact ih _

/-- The zones that the allocator finishes on its way. -/
theorem Safe.picked (hl : Laid zs fs) (ho : OpenLive fs) (hf : ∀ r ∈ fs.live, r < fs.nextRef)
    (ps : List Zbd.Pick) (is : List ZoneId) :
    Safe zs fs (({ fs with env := { fs.env with picks := ps } } : Fs).finishZones is) := by
  have h := Safe.setEnv hl ho (hl.env.setPicks ps)
  exact h.trans (.finishZones h.laid h.openLive hf is) hf

theorem Safe.allocateNewZone (hl : Laid zs fs) (ho : OpenLive fs)
    (hf : ∀ r ∈ fs.live, r < fs.nextRef)
    (hr : r ∈ fs.live) (hop : (fs.heap r).openForWr = true) :
    Safe zs fs (fs.allocateNewZone G r).1 := by
  obtain ⟨ps, is, fs₁, h₁, h | ⟨i, fs₂, he, h₂, h⟩⟩ := fs.allocateNewZone_cases G r
  all_goals
    have hs : Safe zs fs fs₁ := by
      rw [h₁]
      exact .picked hl ho hf ps is
  · rw [h.1]
    exact hs.trans (.of_metaOnly (metaOnly_note _ _) hs.laid hs.openLive) hf
  · obtain ⟨hlive, -, hheap, -⟩ :=
      finishZones_frame { fs with env := { fs.env with picks := ps } } is
    rw [← h₁] at hlive hheap
    have hr₁ : r ∈ fs₁.live := by
      rw [hlive]
      exact hr
    have hg := Goes.setActiveZone hs.laid (by rw [hheap]; exact hop) he
    have hs₁ := hs.trans (.of_goes hg hs.laid hs.openLive hr₁) hf
    have hp : Safe zs fs fs₂.1 := by
      rw [h₂]
      exact hs₁.trans (.of_metaOnly (metaOnly_persistMetadata _ r) hs₁.laid hs₁.openLive) hf
    rcases h with h | h
    · rw [h.1]
      exact hp
    · rw [h.1]
      exact hp.trans (.of_metaOnly (metaOnly_note _ _) hp.laid hp.openLive) hf

theorem appendLoop_room (calls : List WriteCall) (data : List Byte) (d : Zbd)
    (hst : (Zbd.appendLoop i calls data d).2 ≠ .ok) (hfit : data.length ≤ (d.zones i).capacity) :
    0 < ((Zbd.appendLoop i calls data d).1.zones i).capacity := by
  induction calls generalizing data d with
  | nil => cases data <;> exact absurd rfl hst
  | cons call calls ih =>
      cases data with
      | nil => exact absurd rfl hst
      | cons b data =>
          cases call with
          | failed => exact (Nat.succ_pos _).trans_le hfit
          | wrote n =>
              refine ih ((b :: data).drop n) (d.appended i ((b :: data).take n)) hst ?_
              rw [Zbd.appended_zones, if_pos rfl]
              simp only [List.length_drop, List.length_take]
              omega

/-- An append that fails has not filled the zone. -/
theorem zoneAppend_room (fs : Fs) (i : ZoneId) (data : List Byte) (event : List Byte → Event)
    (hst : (fs.zoneAppend i data event).2 ≠ .ok) (hc : 0 < (fs.zbd.zones i).capacity) :
    0 < ((fs.zoneAppend i data event).1.zbd.zones i).capacity := by
  have hz : (fs.zoneAppend i data event).1.zbd =
      (fs.zbd.append i data (fs.env.writes.headD [])).1 := rfl
  have hs : (fs.zoneAppend i data event).2 = (fs.zbd.append i data (fs.env.writes.headD [])).2 :=
    rfl
  rw [hz]
  rw [hs] at hst
  unfold Zbd.append at hst ⊢
  split
  · exact hc
  · rename_i hfit
    rw [if_neg hfit] at hst
    exact appendLoop_room _ data fs.zbd hst (by omega)

theorem appendChunk_room (fs : Fs) (k : Handle) (w : Writer) (i : ZoneId) (header left : Nat)
    (hst : (fs.appendChunk k w i header left).2 ≠ .ok) (hc : 0 < (fs.zbd.zones i).capacity) :
    0 < ((fs.appendChunk k w i header left).1.zbd.zones i).capacity := by
  unfold appendChunk at hst ⊢
  dsimp only at hst ⊢
  generalize hx : zoneAppend _ i _ _ = x at hst ⊢
  by_cases hok : x.2 = .ok
  · rw [andThen_ok hok] at hst
    exact absurd rfl hst
  · rw [andThen_of_ne hok, ← hx]
    rw [← hx] at hok
    exact zoneAppend_room _ i _ _ hok hc

/-- A file writes to its zone and has nothing to record yet. -/
theorem Goes.wrote (hl : Laid zs fs) (hr : r ∈ fs.live) (hi : (fs.heap r).activeZone = some i)
    {data : List Byte} (hd : data.length ≤ (fs.zbd.zones i).capacity) (ev : Event)
    (hcap : ∀ k w, OpenAt fs k w → w.file = r → w.buffered = true →
      data.length < (fs.zbd.zones i).capacity) :
    Goes zs fs r [] (fs.wrote i data ev) := by
  have ha := hl.active r hr i hi
  have hadv := Zbd.Advances.appended hl.sane ha.zone hd
  have hz : (fs.wrote i data ev).zbd.zones i =
      { fs.zbd.zones i with wp := (fs.zbd.zones i).wp + data.length
                            capacity := (fs.zbd.zones i).capacity - data.length } := by
    simp [Fs.wrote, note, Zbd.appended_zones]
  have hzone : ∀ {j}, ((fs.wrote i data ev).heap r).activeZone = some j → i = j := fun hj ↦
    Option.some.inj (hi.symm.trans hj)
  exact {
    live := rfl
    nextRef := rfl
    heap := fun _ _ ↦ rfl
    zbd := hi ▸ hadv
    sane := hl.sane.appended ha.zone hd
    extents := (List.append_nil _).symm
    apart := .nil
    inside := fun _ he ↦ absurd he List.not_mem_nil
    pos := fun _ he ↦ absurd he List.not_mem_nil
    behind := fun _ he ↦ absurd he List.not_mem_nil
    writable := hl.sane.writable_appended hl.writable
    env := hl.env.setWrites _
    zone := by
      intro j hj
      obtain rfl := hzone hj
      rw [hz]
      exact ⟨ha.zone, ha.busy, ha.start, ha.wp.trans (Nat.le_add_right _ _)⟩
    taken := fun j hj ↦ .inl ⟨hj, le_rfl, fun _ he ↦ absurd he List.not_mem_nil⟩
    writers := fun _ w' hw' ↦ ⟨w', ⟨hw'.writer, hw'.isOpen⟩, rfl⟩
    idle := hl.idle r hr
    opened := fun k w hw hf ↦ hf ▸ hl.opened k w ⟨hw.writer, hw.isOpen⟩
    direct := by
      intro k w j hw hf hb hj
      obtain rfl := hzone hj
      have h := hl.direct k w i ⟨hw.writer, hw.isOpen⟩ hb (hf ▸ hi)
      rw [hf] at h
      rw [hz]
      exact h.trans (Nat.le_add_right _ _)
    buffered := by
      intro k w j hw hf hb hj
      obtain rfl := hzone hj
      rw [hz]
      exact Nat.sub_pos_of_lt (hcap k w ⟨hw.writer, hw.isOpen⟩ hf hb) }

/-- A buffered file writes to its zone and records what it has written. -/
theorem Goes.record (hl : Laid zs fs) {k : Handle} {w : Writer} (hw : OpenAt fs k w)
    (hb : w.buffered = true) (hr : w.file ∈ fs.live) (hi : (fs.heap w.file).activeZone = some i)
    {data : List Byte} {header len : Nat}
    (hd : data.length ≤ (fs.zbd.zones i).capacity) (hlen : 0 < len)
    (hfit : header + len ≤ data.length)
    (hlive : fs'.live = fs.live) (hnext : fs'.nextRef = fs.nextRef)
    (hheap : ∀ r' ≠ w.file, fs'.heap r' = fs.heap r') (hwriters : fs'.writers = fs.writers)
    (henv : fs'.env.Orderly zs) (hz : (fs.zbd.appended i data).SameZones fs'.zbd)
    (hbusy : ∀ j ≠ i, (fs'.zbd.zones j).busy = (fs.zbd.zones j).busy)
    (hext : (fs'.heap w.file).extents = (fs.heap w.file).extents ++
      [⟨(fs.heap w.file).extentStart + header, len, i⟩])
    (hstart : (fs'.heap w.file).extentStart = (fs.zbd.zones i).wp + data.length)
    (hopen : (fs'.heap w.file).openForWr = (fs.heap w.file).openForWr)
    (hact : ∀ j, (fs'.heap w.file).activeZone = some j →
      j = i ∧ (fs'.zbd.zones i).busy = true ∧ 0 < (fs'.zbd.zones i).capacity) :
    Goes zs fs w.file [⟨(fs.heap w.file).extentStart + header, len, i⟩] fs' := by
  have ha := hl.active _ hr i hi
  have hadv := Zbd.Advances.appended hl.sane ha.zone hd
  have hop : (fs'.heap w.file).openForWr = true := hopen.trans (hl.opened k w hw)
  have hwp : (fs'.zbd.zones i).wp = (fs.zbd.zones i).wp + data.length := by
    rw [hz.wp, Zbd.appended_zones, if_pos rfl]
  have hst : (fs'.zbd.zones i).start = (fs.zbd.zones i).start := by
    rw [hz.start, Zbd.appended_zones, if_pos rfl]
  have hold : ∀ {k' w'}, OpenAt fs' k' w' → OpenAt fs k' w' :=
    fun hw' ↦ ⟨hwriters ▸ hw'.writer, hw'.isOpen⟩
  have hin : fs'.zbd.Inside ⟨(fs.heap w.file).extentStart + header, len, i⟩ := by
    refine ⟨hz.nrZones.symm ▸ ha.zone, ?_, ?_⟩
    · show (fs'.zbd.zones i).start ≤ (fs.heap w.file).extentStart + header
      have := ha.start
      omega
    · show (fs.heap w.file).extentStart + header + len ≤ (fs'.zbd.zones i).wp
      have := ha.wp
      omega
  exact {
    live := hlive
    nextRef := hnext
    heap := fun r' hne ↦ by rw [hheap r' hne]
    zbd := by
      rw [hi]
      refine hadv.trans (.of_sameZones hz fun j hj hjb ↦ ?_)
      have hji : j ≠ i := fun h ↦ hj (congrArg some h.symm)
      rw [Zbd.appended_zones, if_neg hji] at hjb
      exact (hbusy j hji).trans hjb
    sane := hz.sane (hl.sane.appended ha.zone hd)
    extents := hext
    apart := List.pairwise_singleton _ _
    inside := fun e he ↦ by
      obtain rfl := List.mem_singleton.mp he
      exact hin
    pos := fun e he ↦ by
      obtain rfl := List.mem_singleton.mp he
      exact hlen
    behind := fun e he ↦ by
      obtain rfl := List.mem_singleton.mp he
      exact ⟨hi, Nat.le_add_right _ _⟩
    writable := hz.writable (hl.sane.writable_appended hl.writable)
    env := henv
    zone := by
      intro j hj
      obtain ⟨rfl, hjb, -⟩ := hact j hj
      refine ⟨ha.zone, hjb, ?_, ?_⟩
      · have := ha.start
        have := ha.wp
        omega
      · rw [hstart, hwp]
    taken := by
      intro j hj
      obtain ⟨rfl, -, -⟩ := hact j hj
      have := ha.wp
      refine .inl ⟨hi, by omega, fun e he ↦ ?_⟩
      obtain rfl := List.mem_singleton.mp he
      show (fs.heap w.file).extentStart + header + len ≤ (fs'.heap w.file).extentStart
      omega
    writers := fun _ w' hw' ↦ ⟨w', hold hw', rfl⟩
    idle := fun hcl ↦ by
      rw [hop] at hcl
      cases hcl
    opened := fun _ _ _ _ ↦ hop
    direct := by
      intro k' w' j hw' hf hb' _
      obtain rfl := hl.unique k' w' k w (hold hw') hw hf
      obtain rfl := Option.some.inj (hw.writer.symm.trans (hold hw').writer)
      exact absurd (hb.symm.trans hb') (by simp)
    buffered := by
      intro _ _ j _ _ _ hj
      obtain ⟨rfl, -, hc⟩ := hact j hj
      exact hc }

section Chunk

variable {k : Handle} {w : Writer} {data : List Byte} {header len : Nat}

theorem Goes.recordExtent (hl : Laid zs fs) (hw : OpenAt fs k w) (hb : w.buffered = true)
    (hr : w.file ∈ fs.live) (hi : (fs.heap w.file).activeZone = some i) (hlen : 0 < len)
    (hfit : header + len ≤ data.length) (hd : data.length < (fs.zbd.zones i).capacity)
    (ev : Event) : Goes zs fs w.file [⟨(fs.heap w.file).extentStart + header, len, i⟩]
      ((fs.wrote i data ev).recordExtent w.file i header len) := by
  have ha := hl.active _ hr i hi
  have hused : (fs.zbd.appended i data).OnlyUsed ((fs.zbd.appended i data).addUsed i len) :=
    .addUsed _ _ _
  refine .record hl hw hb hr hi hd.le hlen hfit rfl rfl ?_ rfl (hl.env.setWrites _) hused.sameZones
    ?_ ?_ ?_ ?_ ?_
  · intro r' hne
    simp [Fs.recordExtent, setFile, hne, Fs.wrote, note]
  · intro j hj
    show (((fs.zbd.appended i data).addUsed i len).zones j).busy = _
    rw [hused.busy, Zbd.appended_zones, if_neg hj]
  · simp [Fs.recordExtent, setFile, Fs.wrote, note]
  · simp [Fs.recordExtent, setFile, Fs.wrote, note, Zbd.appended_zones]
  · simp [Fs.recordExtent, setFile, Fs.wrote, note]
  · intro j hj
    have hji : i = j := by simpa [Fs.recordExtent, setFile, Fs.wrote, note, hi] using hj
    refine ⟨hji.symm, ?_, ?_⟩
    · show (((fs.zbd.appended i data).addUsed i len).zones i).busy = true
      rw [hused.busy, Zbd.appended_zones, if_pos rfl]
      exact ha.busy
    · show 0 < (((fs.zbd.appended i data).addUsed i len).zones i).capacity
      rw [hused.sameZones.capacity, Zbd.appended_zones, if_pos rfl]
      exact Nat.sub_pos_of_lt hd

/-- The chunk has filled the zone, which is closed. -/
theorem Goes.recordLast (hl : Laid zs fs) (hw : OpenAt fs k w) (hb : w.buffered = true)
    (hr : w.file ∈ fs.live) (hi : (fs.heap w.file).activeZone = some i) (hlen : 0 < len)
    (hfit : header + len ≤ data.length) (hd : data.length ≤ (fs.zbd.zones i).capacity)
    (ev : Event) : Goes zs fs w.file [⟨(fs.heap w.file).extentStart + header, len, i⟩]
      (((fs.wrote i data ev).recordExtent w.file i header len).closeActiveZone w.file) := by
  have hused : (fs.zbd.appended i data).OnlyUsed ((fs.zbd.appended i data).addUsed i len) :=
    .addUsed _ _ _
  have hz := hused.sameZones.trans (Zbd.sameZones_setBusy _ i false)
  have hi' : (((fs.wrote i data ev).recordExtent w.file i header len).heap w.file).activeZone =
      some i := by
    simp [Fs.recordExtent, setFile, Fs.wrote, note, hi]
  unfold Fs.closeActiveZone
  rw [hi']
  dsimp only
  refine .record hl hw hb hr hi hd hlen hfit rfl rfl ?_ rfl (hl.env.setWrites _) hz ?_ ?_ ?_ ?_ ?_
  · intro r' hne
    simp [Fs.recordExtent, setFile, hne, Fs.wrote, note]
  · intro j hj
    show ((((fs.zbd.appended i data).addUsed i len).setBusy i false).zones j).busy = _
    rw [setBusy_zones, if_neg hj, hused.busy, Zbd.appended_zones, if_neg hj]
  · simp [Fs.recordExtent, setFile, Fs.wrote, note]
  · simp [Fs.recordExtent, setFile, Fs.wrote, note, Zbd.appended_zones]
  · simp [Fs.recordExtent, setFile, Fs.wrote, note]
  · intro j hj
    simp [setFile] at hj

end Chunk

/-- A chunk that fits in the zone with its padding holds more than a header. -/
theorem header_lt_chunk {bs header left cap : Nat} (hbs : SPARSE_HEADER_SIZE < bs)
    (hh : header ≤ SPARSE_HEADER_SIZE) (hl : left ≠ 0) (hcap : 0 < cap)
    (hfit : min (left + header) cap + padSize bs (min (left + header) cap) ≤ cap) :
    header < min (left + header) cap := by
  rcases Nat.le_total (left + header) cap with h | h
  · rw [Nat.min_eq_left h]
    omega
  · rw [Nat.min_eq_right h] at hfit ⊢
    have hdvd : bs ∣ cap := by
      by_contra hn
      have hlt := Nat.mod_lt cap (show 0 < bs by omega)
      rw [padSize, if_neg fun h0 ↦ hn (Nat.dvd_of_mod_eq_zero h0)] at hfit
      omega
    have := Nat.le_of_dvd hcap hdvd
    omega

theorem bufferBase_le (fs : Fs) (w : Writer) : fs.bufferBase w ≤ SPARSE_HEADER_SIZE := by
  unfold bufferBase
  split
  · exact le_rfl
  · exact Nat.zero_le _

/-- One turn of the buffered loop, and the close of a zone that it fills. -/
theorem Safe.appendChunk (hl : Laid zs fs) (ho : OpenLive fs) (hf : ∀ r ∈ fs.live, r < fs.nextRef)
    {k : Handle} {w : Writer} {left : Nat} (hw : OpenAt fs k w) (hb : w.buffered = true)
    (hi : (fs.heap w.file).activeZone = some i) (hleft : left ≠ 0) :
    (((fs.appendChunk k w i (fs.bufferBase w) left).2 = .ok →
      ((fs.appendChunk k w i (fs.bufferBase w) left).1.zbd.zones i).capacity ≠ 0) →
        Safe zs fs (fs.appendChunk k w i (fs.bufferBase w) left).1) ∧
      ((fs.appendChunk k w i (fs.bufferBase w) left).2 = .ok →
        Safe zs fs ((fs.appendChunk k w i (fs.bufferBase w) left).1.closeActiveZone w.file)) := by
  have hr := ho k w hw
  have hcap := hl.buffered k w i hw hb hi
  have hroom := appendChunk_room fs k w i (fs.bufferBase w) left
  have hbase := fs.bufferBase_le w
  generalize hheader : fs.bufferBase w = header at hroom hbase ⊢
  obtain ⟨fs₁, data, len, h₁, hlen, hdata, hcases⟩ := fs.appendChunk_cases k w i header left
  generalize hw₁ : ({ w with buffer := fs.paddedBuffer w header (fs.wrSize i header left) } :
    Writer) = w₁ at h₁
  have hfile : w₁.file = w.file := by rw [← hw₁]
  have hbuf : w₁.buffered = true := by rw [← hw₁]; exact hb
  have hs₁ : Safe zs fs fs₁ := by
    rw [h₁, ← hw₁]
    exact .of_same (.setWriter hw.writer rfl) hl ho rfl
  have hopen₁ : OpenAt fs₁ k w₁ := by
    rw [h₁, ← hw₁]
    exact ⟨by simp [setWriter], hw.isOpen⟩
  have hzbd : fs₁.zbd = fs.zbd := by rw [h₁, setWriter]
  have hheap : fs₁.heap = fs.heap := by rw [h₁, setWriter]
  have hr₁ : w₁.file ∈ fs₁.live := hs₁.openLive k w₁ hopen₁
  have hi₁ : (fs₁.heap w₁.file).activeZone = some i := by
    rw [hheap, hfile]
    exact hi
  rcases hcases with ⟨n, hn, hnc, hfst, hst⟩ | ⟨hdc, hfst, hst⟩
  · refine ⟨fun _ ↦ ?_, fun hok ↦ absurd hok hst⟩
    have hroom' := hroom hst hcap
    rw [hfst] at hroom' ⊢
    have hlt : (data.take n).length < (fs₁.zbd.zones i).capacity := by
      have hz : ((fs₁.zbd.appended i (data.take n)).zones i).capacity =
          (fs₁.zbd.zones i).capacity - (data.take n).length := by
        rw [Zbd.appended_zones, if_pos rfl]
      exact Nat.lt_of_sub_pos (hroom'.trans_eq hz)
    have hg := Goes.wrote hs₁.laid hr₁ hi₁ hlt.le
      (.append i (fs.heap w.file).fileId (data.take n) header (fs.heap w.file).fileSize len)
      fun _ _ _ _ _ ↦ hlt
    exact hs₁.trans (.of_goes hg hs₁.laid hs₁.openLive hr₁) hf
  · have hdlen : data.length =
        fs.wrSize i header left + padSize fs.zbd.blockSize (fs.wrSize i header left) := by
      rw [hdata, Mem.length_read]
    have hgt : header < fs.wrSize i header left :=
      header_lt_chunk hl.sane.block hbase hleft hcap (hdlen ▸ hdc)
    rw [sub32, if_pos hgt.le] at hlen
    have hpos : 0 < len := by omega
    have hfit : header + len ≤ data.length := by omega
    have hd₁ : data.length ≤ (fs₁.zbd.zones i).capacity := by
      rw [hzbd]
      exact hdc
    rw [hfst, ← hfile]
    refine ⟨fun hne ↦ ?_, fun _ ↦ ?_⟩
    · have hcap' : (((fs₁.zbd.appended i data).addUsed i len).zones i).capacity ≠ 0 := hne hst
      rw [(Zbd.OnlyUsed.addUsed _ i len).sameZones.capacity, Zbd.appended_zones,
        if_pos rfl] at hcap'
      have hlt : data.length < (fs₁.zbd.zones i).capacity := Nat.lt_of_sub_ne_zero hcap'
      have hg := Goes.recordExtent hs₁.laid hopen₁ hbuf hr₁ hi₁ hpos hfit hlt
        (.append i (fs.heap w₁.file).fileId data header (fs.heap w₁.file).fileSize len)
      exact hs₁.trans (.of_goes hg hs₁.laid hs₁.openLive hr₁) hf
    · have hg := Goes.recordLast hs₁.laid hopen₁ hbuf hr₁ hi₁ hpos hfit hd₁
        (.append i (fs.heap w₁.file).fileId data header (fs.heap w₁.file).fileSize len)
      exact hs₁.trans (.of_goes hg hs₁.laid hs₁.openLive hr₁) hf

theorem Safe.appendDirect (hl : Laid zs fs) (ho : OpenLive fs)
    {k : Handle} {w : Writer} {data : List Byte} (hw : OpenAt fs k w) (hb : w.buffered = false)
    (hi : (fs.heap w.file).activeZone = some i) : Safe zs fs (fs.appendDirect w.file i data).1 := by
  have hr := ho k w hw
  have hnone : ∀ k' w', OpenAt fs k' w' → w'.file = w.file → w'.buffered = true →
      ∀ n m : Nat, n < m := by
    intro k' w' hw' hfile hb'
    obtain rfl := hl.unique k' w' k w hw' hw hfile
    obtain rfl := Option.some.inj (hw.writer.symm.trans hw'.writer)
    exact absurd (hb.symm.trans hb') (by simp)
  rcases fs.appendDirect_cases w.file i data with ⟨n, hn, hc, hfst, -⟩ | ⟨hc, hfst, -⟩
  · rw [hfst]
    have hlen : (data.take n).length ≤ (fs.zbd.zones i).capacity := by
      rw [List.length_take]
      omega
    exact .of_goes (Goes.wrote hl hr hi hlen _ fun k' w' hw' hfile hb' ↦ hnone k' w' hw' hfile hb'
      _ _) hl ho hr
  · rw [hfst]
    have hg := Goes.wrote hl hr hi hc
      (.append i (fs.heap w.file).fileId data 0 (fs.heap w.file).fileSize data.length)
      fun k' w' hw' hfile hb' ↦ hnone k' w' hw' hfile hb' _ _
    have ha := hl.active _ hr i hi
    have hd := hl.direct k w i hw hb hi
    have hwp : ((fs.zbd.appended i data).zones i).wp = (fs.zbd.zones i).wp + data.length := by
      rw [Zbd.appended_zones, if_pos rfl]
    have hsame : ∀ j,
      (((fs.wrote i data (.append i (fs.heap w.file).fileId data 0 (fs.heap w.file).fileSize
        data.length)).setFile w.file { fs.heap w.file with
          fileSize := (fs.heap w.file).fileSize + data.length }).heap w.file).activeZone = some j →
            i = j := by
      intro j hj
      simpa [setFile, hi] using hj
    refine .of_goes (?_ : Goes zs fs w.file [] _) hl ho hr
    exact { hg with
      heap := fun r' hne ↦ by simp [setFile, hne, Fs.wrote, note]
      extents := by simp [setFile]
      zone := by
        intro j hj
        obtain rfl := hsame j hj
        simpa [setFile, Fs.wrote, note] using hg.zone i hi
      taken := by
        intro j hj
        obtain rfl := hsame j hj
        simpa [setFile, Fs.wrote, note] using hg.taken i hi
      writers := fun _ w' hw' ↦ ⟨w', ⟨hw'.writer, hw'.isOpen⟩, rfl⟩
      idle := by simpa [setFile] using hl.idle _ hr
      opened := fun k' w' hw' hfile ↦ by
        simpa [setFile, hfile] using hl.opened k' w' ⟨hw'.writer, hw'.isOpen⟩
      direct := by
        intro k' w' j _ _ _ hj
        obtain rfl := hsame j hj
        show _ ≤ ((fs.zbd.appended i data).zones i).wp
        rw [hwp]
        simp only [setFile, Function.update_self]
        have := ha.wp
        omega
      buffered := fun k' w' j hw' hfile hb' _ ↦ hnone k' w' ⟨hw'.writer, hw'.isOpen⟩ hfile hb' _ _ }

end Fs

end ZenFs
