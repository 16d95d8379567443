import ZenFs.Fs.Acts
import Mathlib.Order.Interval.Finset.Nat

/-!
# What is recorded is kept

Every operation keeps the layout, and what a file has recorded in its extents stays
as it is for as long as the file lives: appends to other files, deletions, resets of
zones and migrations never touch it.
-/

namespace ZenFs

namespace Fs

variable {zs : Nat} {leak : ZoneId → Nat} {fs fs₁ fs₂ fs' : Fs} {r : Ref} {i : ZoneId}
  {G : Geometry} {new : List ZoneExtent} {d : Zbd}

/-! ## Opening and closing -/

/-- A close of the zone that does not fail. -/
theorem closePartialZone_orderly (fs : Fs) (r : Ref) (he : fs.env.Orderly zs) :
    ∃ env, env.Orderly zs ∧
    fs.closePartialZone r = (({ fs with env := env } : Fs).closeActiveZone r, .ok) := by
  unfold closePartialZone
  split
  · rename_i hz
    exact ⟨fs.env, he, by simp [Fs.closeActiveZone, hz]⟩
  · split
    · exact ⟨fs.env, he, rfl⟩
    · refine ⟨{ fs.env with closes := fs.env.closes.tail },
        ⟨he.resets, fun b hb ↦ he.closes b (List.mem_of_mem_tail hb)⟩, ?_⟩
      have hhead : fs.env.closes.headD true = true := by
        cases hcl : fs.env.closes with
        | nil => rfl
        | cons b bs => exact he.closes b (hcl ▸ List.mem_cons_self)
      rw [if_pos hhead]

/-- A file gives its zone back. -/
theorem closeActiveZone_eq (fs : Fs) (r : Ref) :
    ∃ d, fs.closeActiveZone r =
        { fs with zbd := d }.setFile r { fs.heap r with activeZone := none } ∧
      fs.zbd.SameZones d ∧ fs.zbd.Advances (fs.heap r).activeZone d := by
  unfold Fs.closeActiveZone
  split
  · rename_i hz
    refine ⟨fs.zbd, ?_, .refl _, .refl _ _⟩
    have hf : ({ fs.heap r with activeZone := none } : ZoneFile) = fs.heap r := by rw [← hz]
    rw [hf, setFile, Function.update_eq_self]
  · rename_i i hi
    have hz := Zbd.sameZones_setBusy fs.zbd i false
    refine ⟨_, rfl, hz, .of_sameZones hz fun j hj hb ↦ ?_⟩
    have hji : j ≠ i := fun h ↦ hj (h ▸ hi)
    rw [setBusy_zones, if_neg hji]
    exact hb

/-- The state in which `CloseWR` gives the zone back. -/
structure Closing (zs : Nat) (fs : Fs) (r : Ref) (fs' : Fs) : Prop where
  zbd : fs'.zbd = fs.zbd
  live : fs'.live = fs.live
  nextRef : fs'.nextRef = fs.nextRef
  writers : fs'.writers = fs.writers
  heap : ∀ r' ≠ r, (fs'.heap r').layout = (fs.heap r').layout
  extents : (fs'.heap r).extents = (fs.heap r).extents
  activeZone : (fs'.heap r).activeZone = (fs.heap r).activeZone
  env : fs'.env.Orderly zs

theorem Closing.of_metaOnly {env : Env} (he : env.Orderly zs)
    (hm : MetaOnly (fs.setFile r { fs.heap r with extentStart := NO_EXTENT }) fs₁) :
    Closing zs fs r { fs₁.setFile r { fs₁.heap r with openForWr := false } with env := env } where
  zbd := hm.zbd
  live := hm.live
  nextRef := hm.nextRef
  writers := hm.writers
  heap r' hne := by
    have h := (Still.of_metaOnly hm).heap r'
    simpa [setFile, hne] using h
  extents := by
    have h := (Still.of_metaOnly hm).extents r
    simpa [setFile] using h
  activeZone := by
    have h := (Still.of_metaOnly hm).activeZone r
    simpa [setFile] using h
  env := he

/-- A close that gets its record to the device. -/
theorem closeFile_eq (fs : Fs) {k : Handle} {w : Writer} (hw : OpenAt fs k w)
    (he : fs.env.Orderly zs) (hp : Event.persistFailed ∉ (fs.closeFile G k w.file).1.hist) :
    ∃ fs₁, Closing zs fs w.file fs₁ ∧
      (fs.closeFile G k w.file).1 = (fs₁.closeActiveZone w.file).setWriter k { w with
        isOpen := false } := by
  have hm := metaOnly_persistMetadata (G := G)
    (fs.setFile w.file { fs.heap w.file with extentStart := NO_EXTENT }) w.file
  have hfail := syncFileMetadataNoLock_failed (G := G)
    (fs.setFile w.file { fs.heap w.file with extentStart := NO_EXTENT }) w.file false
  unfold Fs.closeFile closeWR at hp ⊢
  rw [persistMetadata] at hm hp ⊢
  generalize syncFileMetadataNoLock G _ w.file false = x at hm hfail hp ⊢
  by_cases hok : x.2 = .ok
  · obtain ⟨env, henv, hcl⟩ := closePartialZone_orderly
      (x.1.setFile w.file { x.1.heap w.file with openForWr := false }) w.file (he.later hm.env)
    refine ⟨_, .of_metaOnly henv hm, ?_⟩
    rw [andThen_ok (x := andThen x _) (by rw [andThen_ok hok, hcl]), andThen_ok hok, hcl]
    obtain ⟨d, hd, -⟩ := closeActiveZone_eq { x.1.setFile w.file
      { x.1.heap w.file with openForWr := false } with env := env } w.file
    dsimp only
    rw [hd]
    have hwr : x.1.writers k = some w := hm.writers ▸ hw.writer
    simp only [withWriter, setFile, hwr]
  · rw [andThen_of_ne (x := andThen x _) (by rw [andThen_of_ne hok]; exact hok),
      andThen_of_ne hok] at hp
    exact absurd (hfail hok) hp

theorem Safe.closeFile (hl : Laid zs fs) (ho : OpenLive fs) {k : Handle} {w : Writer}
    (hw : OpenAt fs k w) (hp : Event.persistFailed ∉ (fs.closeFile G k w.file).1.hist) :
    Safe zs fs (fs.closeFile G k w.file).1 := by
  obtain ⟨fs₁, hc, heq⟩ := closeFile_eq fs hw hl.env hp
  obtain ⟨d, hd, hz, hadv⟩ := closeActiveZone_eq fs₁ w.file
  rw [hc.zbd] at hz hadv
  rw [hc.activeZone] at hadv
  rw [heq, hd]
  generalize hfs' : setWriter _ k { w with isOpen := false } = fs'
  have hopen : ∀ k' w', OpenAt fs' k' w' → OpenAt fs k' w' ∧ k' ≠ k := by
    intro k' w' hw'
    have hne : k' ≠ k := by
      rintro rfl
      obtain rfl : { w with isOpen := false } = w' := by simpa [← hfs', setWriter] using hw'.writer
      exact Bool.false_ne_true hw'.isOpen
    exact ⟨⟨by simpa [← hfs', setWriter, setFile, hne, hc.writers] using hw'.writer,
      hw'.isOpen⟩, hne⟩
  have hnone : (fs'.heap w.file).activeZone = none := by simp [← hfs', setWriter, setFile]
  have hzbd : fs'.zbd = d := by rw [← hfs']; rfl
  have hr := ho k w hw
  refine .of_goes (?_ : Goes zs fs w.file [] _) hl ho hr
  exact {
    live := by rw [← hfs']; exact hc.live
    nextRef := by rw [← hfs']; exact hc.nextRef
    heap := fun r' hne ↦ by simpa [← hfs', setWriter, setFile, hne] using hc.heap r' hne
    zbd := hzbd ▸ hadv
    sane := hzbd ▸ hz.sane hl.sane
    extents := by simp [← hfs', setWriter, setFile, hc.extents]
    apart := .nil
    inside := fun _ he ↦ absurd he List.not_mem_nil
    pos := fun _ he ↦ absurd he List.not_mem_nil
    behind := fun _ he ↦ absurd he List.not_mem_nil
    writable := hzbd ▸ hz.writable hl.writable
    env := by rw [← hfs']; exact hc.env
    zone := fun j hj ↦ by rw [hnone] at hj; cases hj
    taken := fun j hj ↦ by rw [hnone] at hj; cases hj
    writers := fun k' w' hw' ↦ ⟨w', (hopen k' w' hw').1, rfl⟩
    idle := fun _ ↦ hnone
    opened := fun k' w' hw' hf ↦ by
      obtain ⟨hwo, hne⟩ := hopen k' w' hw'
      exact absurd (hl.unique k' w' k w hwo hw hf) hne
    direct := fun _ _ j _ _ _ hj ↦ by rw [hnone] at hj; cases hj
    buffered := fun _ _ j _ _ _ hj ↦ by rw [hnone] at hj; cases hj }

/-- A file without a zone is opened for writing, or closed when no handle is open. -/
theorem Goes.setOpenForWr (hl : Laid zs fs) (hr : r ∈ fs.live) (hz : (fs.heap r).activeZone = none)
    {b : Bool} (hb : ∀ k w, OpenAt fs k w → w.file = r → b = true) :
    Goes zs fs r [] (fs.setFile r { fs.heap r with openForWr := b }) := by
  have hnone : ((fs.setFile r { fs.heap r with openForWr := b }).heap r).activeZone = none := by
    simpa [setFile] using hz
  exact { refl hl hr with
    heap := fun r' hne ↦ by simp [setFile, hne]
    extents := by simp [setFile]
    zone := fun j hj ↦ by rw [hnone] at hj; cases hj
    taken := fun j hj ↦ by rw [hnone] at hj; cases hj
    writers := fun _ w' hw' ↦ ⟨w', ⟨hw'.writer, hw'.isOpen⟩, rfl⟩
    idle := fun _ ↦ hnone
    opened := fun k w hw hf ↦ by simpa [setFile] using hb k w ⟨hw.writer, hw.isOpen⟩ hf
    direct := fun _ _ j _ _ _ hj ↦ by rw [hnone] at hj; cases hj
    buffered := fun _ _ j _ _ _ hj ↦ by rw [hnone] at hj; cases hj }

/-- A new handle on a file that no other handle has open. -/
theorem Laid.setWriter (hl : Laid zs fs) {k : Handle} {w : Writer}
    (hop : (fs.heap w.file).openForWr = true)
    (hnone : (fs.heap w.file).activeZone = none)
    (halone : ∀ k' w', OpenAt fs k' w' → w'.file ≠ w.file) : Laid zs (fs.setWriter k w) := by
  have hopen : ∀ k' w', OpenAt (fs.setWriter k w) k' w' → k' = k ∧ w' = w ∨ OpenAt fs k' w' := by
    intro k' w' hw'
    by_cases hk : k' = k
    · subst hk
      exact .inl ⟨rfl, by simpa [Fs.setWriter, eq_comm] using hw'.writer⟩
    · exact .inr ⟨by simpa [Fs.setWriter, hk] using hw'.writer, hw'.isOpen⟩
  exact {
    toStored := ⟨hl.sane, hl.inside, hl.pos, hl.apart, hl.alone⟩
    size := hl.size
    writable := hl.writable
    env := hl.env
    active := fun r hr i hi ↦ by
      have ha := hl.active r hr i hi
      exact ⟨ha.zone, ha.busy, ha.start, ha.wp, ha.front⟩
    exclusive := hl.exclusive
    idle := hl.idle
    opened := by
      intro k' w' hw'
      rcases hopen k' w' hw' with ⟨-, rfl⟩ | hw'
      · exact hop
      · exact hl.opened k' w' hw'
    unique := by
      intro k₁ w₁ k₂ w₂ hw₁ hw₂ hf
      rcases hopen k₁ w₁ hw₁ with ⟨rfl, rfl⟩ | ho₁
      · rcases hopen k₂ w₂ hw₂ with ⟨rfl, -⟩ | ho₂
        · rfl
        · exact absurd hf.symm (halone k₂ w₂ ho₂)
      · rcases hopen k₂ w₂ hw₂ with ⟨rfl, rfl⟩ | ho₂
        · exact absurd hf (halone k₁ w₁ ho₁)
        · exact hl.unique k₁ w₁ k₂ w₂ ho₁ ho₂ hf
    direct := by
      intro k' w' i hw' hb hi
      rcases hopen k' w' hw' with ⟨-, rfl⟩ | hw'
      · cases hnone.symm.trans hi
      · exact hl.direct k' w' i hw' hb hi
    buffered := by
      intro k' w' i hw' hb hi
      rcases hopen k' w' hw' with ⟨-, rfl⟩ | hw'
      · cases hnone.symm.trans hi
      · exact hl.buffered k' w' i hw' hb hi }

theorem Safe.openWriter (hl : Laid zs fs) (ho : OpenLive fs) (hf : ∀ r ∈ fs.live, r < fs.nextRef)
    (hr : r ∈ fs.live) (hcl : (fs.heap r).openForWr = false) (fname : Name) (direct : Bool)
    (k : Handle) : Safe zs fs (fs.openWriter r fname direct k) := by
  have h₁ : Safe zs fs (fs.hold r (.writer k)) := .of_same (.hold fs r _) hl ho rfl
  have hg : Goes zs (fs.hold r (.writer k)) r []
      ((fs.hold r (.writer k)).setFile r { fs.heap r with openForWr := true }) :=
    .setOpenForWr h₁.laid hr (hl.idle r hr hcl) fun _ _ _ _ ↦ rfl
  have h₂ := h₁.trans (.of_goes hg h₁.laid h₁.openLive hr) hf
  have halone : ∀ k' w',
    OpenAt ((fs.hold r (.writer k)).setFile r { fs.heap r with openForWr := true }) k' w' →
      w'.file ≠ r := by
    rintro k' w' hw' rfl
    have := hl.opened k' w' ⟨hw'.writer, hw'.isOpen⟩
    rw [hcl] at this
    cases this
  have hlaid : Laid zs (fs.openWriter r fname direct k) :=
    h₂.laid.setWriter (k := k) (w := newWriter _ r _) (by simp [newWriter, setFile])
      (by simpa [newWriter, setFile] using hl.idle r hr hcl) halone
  refine ⟨hlaid, ⟨h₂.keeps.nextRef, h₂.keeps.live, h₂.keeps.recorded⟩, fun k' w' hw' ↦ ?_⟩
  by_cases hk : k' = k
  · subst hk
    obtain rfl : newWriter _ r _ = w' := by simpa [Fs.openWriter, Fs.setWriter] using hw'.writer
    exact hr
  · exact ho k' w' ⟨by simpa [Fs.openWriter, Fs.setWriter, setFile, Fs.hold, hk] using hw'.writer,
      hw'.isOpen⟩

/-- A new object has nothing yet. -/
theorem Safe.newFile (hl : Laid zs fs) (ho : OpenLive fs) (hf : ∀ r ∈ fs.live, r < fs.nextRef)
    (fname : Name) (direct : Bool) : Safe zs fs (fs.newFile fname direct).2 := by
  generalize hfs' : (fs.newFile fname direct).2 = fs'
  have hlive : ∀ r, r ∈ fs'.live ↔ r = fs.nextRef ∨ r ∈ fs.live := by simp [← hfs', Fs.newFile]
  have hnew : (fs'.heap fs.nextRef).extents = [] ∧ (fs'.heap fs.nextRef).activeZone = none := by
    simp [← hfs', Fs.newFile]
  have hold : ∀ r ∈ fs.live, fs'.heap r = fs.heap r := fun r hr ↦ by
    simp [← hfs', Fs.newFile, (hf r hr).ne]
  have hzbd : fs'.zbd = fs.zbd := by rw [← hfs']; rfl
  have hopen : ∀ k w, OpenAt fs' k w → OpenAt fs k w := fun k w hw ↦ by
    rw [← hfs'] at hw
    exact ⟨hw.writer, hw.isOpen⟩
  have hmem : ∀ r ∈ fs'.live, ∀ e ∈ (fs'.heap r).extents, r ∈ fs.live ∧
      e ∈ (fs.heap r).extents := by
    intro r hr e he
    rcases (hlive r).mp hr with rfl | hr
    · rw [hnew.1] at he
      cases he
    · exact ⟨hr, hold r hr ▸ he⟩
  have hactive : ∀ r ∈ fs'.live, ∀ i, (fs'.heap r).activeZone = some i →
      r ∈ fs.live ∧ (fs.heap r).activeZone = some i := by
    intro r hr i hi
    rcases (hlive r).mp hr with rfl | hr
    · cases hnew.2.symm.trans hi
    · exact ⟨hr, hold r hr ▸ hi⟩
  refine ⟨{
    sane := hzbd ▸ hl.sane
    inside := fun r hr e he ↦ by
      obtain ⟨hr, he⟩ := hmem r hr e he
      exact hzbd ▸ hl.inside r hr e he
    pos := fun r hr e he ↦ by
      obtain ⟨hr, he⟩ := hmem r hr e he
      exact hl.pos r hr e he
    apart := fun r hr ↦ by
      rcases (hlive r).mp hr with rfl | hr
      · rw [hnew.1]
        exact .nil
      · exact hold r hr ▸ hl.apart r hr
    alone := fun r hr r' hr' hne e he e' he' ↦ by
      obtain ⟨hr, he⟩ := hmem r hr e he
      obtain ⟨hr', he'⟩ := hmem r' hr' e' he'
      exact hl.alone r hr r' hr' hne e he e' he'
    size := hzbd ▸ hl.size
    writable := hzbd ▸ hl.writable
    env := by rw [← hfs']; exact hl.env
    active := fun r hr i hi ↦ by
      obtain ⟨hr, hi⟩ := hactive r hr i hi
      have ha := hl.active r hr i hi
      refine ⟨hzbd ▸ ha.zone, hzbd ▸ ha.busy, ?_, ?_, fun r' hr' e he hz ↦ ?_⟩
      · rw [hzbd, hold r hr]
        exact ha.start
      · rw [hzbd, hold r hr]
        exact ha.wp
      · obtain ⟨hr', he⟩ := hmem r' hr' e he
        rw [hold r hr]
        exact ha.front r' hr' e he hz
    exclusive := fun r hr r' hr' i hi hi' ↦ by
      obtain ⟨hr, hi⟩ := hactive r hr i hi
      obtain ⟨hr', hi'⟩ := hactive r' hr' i hi'
      exact hl.exclusive r hr r' hr' i hi hi'
    idle := fun r hr hcl ↦ by
      rcases (hlive r).mp hr with rfl | hr
      · exact hnew.2
      · rw [hold r hr] at hcl ⊢
        exact hl.idle r hr hcl
    opened := fun k w hw ↦ by
      rw [hold _ (ho k w (hopen k w hw))]
      exact hl.opened k w (hopen k w hw)
    unique := fun k w k' w' hw hw' ↦ hl.unique k w k' w' (hopen k w hw) (hopen k' w' hw')
    direct := fun k w i hw ↦ by
      rw [hold _ (ho k w (hopen k w hw)), hzbd]
      exact hl.direct k w i (hopen k w hw)
    buffered := fun k w i hw ↦ by
      rw [hold _ (ho k w (hopen k w hw)), hzbd]
      exact hl.buffered k w i (hopen k w hw) }, ⟨?_, ?_, ?_⟩, ?_⟩
  · rw [← hfs']
    exact Nat.le_succ _
  · intro r hr hlt
    exact ((hlive r).mp hr).resolve_left hlt.ne
  · intro r hr _
    show _ <+: fs'.zbd.contents (fs'.heap r).extents
    rw [hzbd, hold r hr]
    exact List.prefix_rfl
  · intro k w hw
    exact (hlive _).mpr (.inr (ho k w (hopen k w hw)))

theorem Safe.createFile (hl : Laid zs fs) (ho : OpenLive fs) (hf : ∀ r ∈ fs.live, r < fs.nextRef)
    (fname : Name) (direct : Bool) (k : Handle)
    (ho' : OpenLive (fs.createFile G fname direct k).1) :
    Safe zs fs (fs.createFile G fname direct k).1 := by
  have h₁ := Safe.newFile hl ho hf fname direct
  unfold Fs.createFile at ho' ⊢
  dsimp only at ho' ⊢
  generalize hfs₁ : (fs.newFile fname direct).2.noteRolled G _ = fs₁ at ho' ⊢
  have h₂ : MetaOnly (fs.newFile fname direct).2 fs₁ := hfs₁ ▸ metaOnly_noteRolled _ _
  have hm := h₂.trans
    (metaOnly_syncFileMetadataNoLock (G := G) fs₁ (fs.newFile fname direct).1 false)
  split at ho'
  · rename_i fs₂ heq
    rw [heq] at hm
    have h₃ := h₁.trans (.of_metaOnly hm h₁.laid h₁.openLive) hf
    have h₄ := h₃.trans
      (.of_same (.setFiles fs₂ (fs₂.files.insertNew fname (fs.newFile fname direct).1))
      h₃.laid h₃.openLive rfl) hf
    have hr : (fs.newFile fname direct).1 ∈ fs₂.live := by
      rw [hm.live]
      simp [Fs.newFile]
    have hcl : (fs₂.heap (fs.newFile fname direct).1).openForWr = false := by
      have h := (Still.of_metaOnly hm).openForWr (fs.newFile fname direct).1
      rw [h]
      simp [Fs.newFile]
    have hf₂ : ∀ r ∈ fs₂.live, r < fs₂.nextRef := by
      rw [hm.live, hm.nextRef]
      intro r hr
      simp only [Fs.newFile, Finset.mem_insert] at hr ⊢
      rcases hr with rfl | hr
      · exact Nat.lt_succ_self _
      · exact (hf r hr).trans (Nat.lt_succ_self _)
    have h₅ := h₄.trans (Safe.openWriter h₄.laid h₄.openLive hf₂ hr hcl fname direct k) hf
    exact h₅.trans (.of_still (.drop _ _ _) h₅.laid ho') hf
  · rename_i fs₂ s hs heq
    rw [heq] at hm
    have h₃ := h₁.trans (.of_metaOnly hm h₁.laid h₁.openLive) hf
    dsimp only
    cases s with
    | ok => exact absurd rfl hs
    | _ => exact h₃.trans (.of_still (.drop _ _ _) h₃.laid ho') hf

/-! ## Resets -/

/-- A zone in which no live file has an extent is reset. -/
theorem Safe.elsewhere (hl : Laid zs fs) (ho : OpenLive fs) (hd : fs.zbd.Elsewhere i d)
    (hb : (fs.zbd.zones i).busy = false)
    (hnone : ∀ r ∈ fs.live, ∀ e ∈ (fs.heap r).extents, e.zone ≠ i) :
    Safe zs fs { fs with zbd := d } := by
  have hown : ∀ r ∈ fs.live, ∀ j, (fs.heap r).activeZone = some j → d.zones j = fs.zbd.zones j := by
    intro r hr j hj
    refine hd.zones j fun hji ↦ ?_
    have := (hl.active r hr j hj).busy
    rw [hji, hb] at this
    cases this
  have hopen : ∀ {k w}, OpenAt { fs with zbd := d } k w → OpenAt fs k w :=
    fun hw ↦ ⟨hw.writer, hw.isOpen⟩
  refine ⟨{
    sane := hd.sane
    inside := fun r hr e he ↦ by
      have hin := hl.inside r hr e he
      have hz := hd.zones _ (hnone r hr e he)
      exact ⟨hd.nrZones ▸ hin.zone, hz ▸ hin.start, hz ▸ hin.stop⟩
    pos := hl.pos
    apart := hl.apart
    alone := hl.alone
    size := hd.zoneSize.trans hl.size
    writable := hd.writable
    env := hl.env
    active := fun r hr j hj ↦ by
      have ha := hl.active r hr j hj
      have hz := hown r hr j hj
      exact ⟨hd.nrZones ▸ ha.zone, hz ▸ ha.busy, hz ▸ ha.start, hz ▸ ha.wp, ha.front⟩
    exclusive := hl.exclusive
    idle := hl.idle
    opened := fun k w hw ↦ hl.opened k w (hopen hw)
    unique := fun k w k' w' hw hw' ↦ hl.unique k w k' w' (hopen hw) (hopen hw')
    direct := fun k w j hw hbuf hj ↦ by
      rw [hown _ (ho k w (hopen hw)) j hj]
      exact hl.direct k w j (hopen hw) hbuf hj
    buffered := fun k w j hw hbuf hj ↦ by
      rw [hown _ (ho k w (hopen hw)) j hj]
      exact hl.buffered k w j (hopen hw) hbuf hj },
    ⟨le_rfl, fun _ hr _ ↦ hr, fun r hr _ ↦ ?_⟩, fun k w hw ↦ ho k w (hopen hw)⟩
  have hc : d.contents (fs.heap r).extents = fs.zbd.contents (fs.heap r).extents :=
    Zbd.contents_congr fun e he ↦ hd.bytes e (hl.inside r hr e he) (hnone r hr e he)
  show fs.zbd.contents _ <+: d.contents _
  rw [hc]

theorem Safe.resetZone (hl : Laid zs fs) (ho : OpenLive fs) (hf : ∀ r ∈ fs.live, r < fs.nextRef)
    (hi : i < fs.zbd.nrZones) (hb : (fs.zbd.zones i).busy = false)
    (hnone : ∀ r ∈ fs.live, ∀ e ∈ (fs.heap r).extents, e.zone ≠ i) :
    Safe zs fs (fs.resetZone i).1 := by
  have he : fs.env.Orderly fs.zbd.zoneSize := hl.size.symm ▸ hl.env
  have h := Safe.elsewhere hl ho (.reset hl.sane hl.writable hi he) hb hnone
  unfold Fs.resetZone
  dsimp only
  split
  · exact h
  · exact h.trans (.of_metaOnly (metaOnly_note _ _) h.laid h.openLive) hf

/-! ## What a zone can hold -/

/-- The offsets of the bytes that extents have in a zone. -/
def offsets (i : ZoneId) : List ZoneExtent → Finset Nat
  | [] => ∅
  | e :: es =>
      if e.zone = i then Finset.Ico e.start (e.start + e.length) ∪ offsets i es
      else offsets i es

theorem mem_offsets {a : Nat} {es : List ZoneExtent} :
    a ∈ offsets i es ↔ ∃ e ∈ es, e.zone = i ∧ e.start ≤ a ∧ a < e.start + e.length := by
  induction es with
  | nil => simp [offsets]
  | cons e es ih =>
      unfold offsets
      by_cases he : e.zone = i
      · simp [he, ih]
      · simp [he, ih]

theorem disjoint_offsets {es es' : List ZoneExtent} (h : ∀ e ∈ es, ∀ e' ∈ es', e.Apart e') :
    Disjoint (offsets i es) (offsets i es') := by
  rw [Finset.disjoint_left]
  intro a ha ha'
  obtain ⟨e, he, -, hle, hlt⟩ := mem_offsets.mp ha
  obtain ⟨e', he', -, hle', hlt'⟩ := mem_offsets.mp ha'
  have := h e he e' he'
  unfold ZoneExtent.Apart at this
  omega

theorem card_offsets {es : List ZoneExtent} (h : es.Pairwise ZoneExtent.Apart) :
    (offsets i es).card = spaceIn i es := by
  induction es with
  | nil => rfl
  | cons e es ih =>
      obtain ⟨he, hes⟩ := List.pairwise_cons.mp h
      rw [spaceIn_cons, ← ih hes]
      by_cases hz : e.zone = i
      · have hd : Disjoint (offsets i [e]) (offsets i es) :=
          disjoint_offsets fun e₁ he₁ ↦ List.mem_singleton.mp he₁ ▸ he
        have hone : offsets i [e] = Finset.Ico e.start (e.start + e.length) := by simp [offsets, hz]
        rw [hone] at hd
        rw [offsets, if_pos hz, if_pos hz, Finset.card_union_of_disjoint hd, Nat.card_Ico]
        omega
      · rw [offsets, if_neg hz, if_neg hz, Nat.zero_add]

/-- The live files have no more bytes in a zone than it is large. -/
theorem Stored.sum_spaceIn_le (h : Stored fs) (hi : i < fs.zbd.nrZones) :
    ∑ r ∈ fs.live, spaceIn i (fs.heap r).extents ≤ fs.zbd.zoneSize := by
  have hsub : fs.live.biUnion (fun r ↦ offsets i (fs.heap r).extents) ⊆
      Finset.Ico (fs.zbd.zones i).start ((fs.zbd.zones i).start + fs.zbd.zoneSize) := by
    intro a ha
    obtain ⟨r, hr, ha⟩ := Finset.mem_biUnion.mp ha
    obtain ⟨e, he, rfl, hle, hlt⟩ := mem_offsets.mp ha
    have hin := h.inside r hr e he
    have := hin.start
    have := hin.stop
    have := h.sane.wp e.zone hi
    rw [Finset.mem_Ico]
    omega
  have hcard := Finset.card_le_card hsub
  rw [Finset.card_biUnion fun r hr r' hr' hne ↦ disjoint_offsets (h.alone r hr r' hr' hne),
    Nat.card_Ico, Nat.add_sub_cancel_left] at hcard
  exact (Finset.sum_congr rfl fun r hr ↦ (card_offsets (h.apart r hr)).symm).trans_le hcard

/-- A zone that counts no more than it should and seems unused is unused: its counter has
not overflowed. -/
theorem Stored.unused (h : Stored fs) (hs : Spending (fun _ ↦ 0) fs) (hz : fs.zbd.zoneSize < 2 ^ 64)
    (hi : i < fs.zbd.nrZones) (hu : (fs.zbd.zones i).stored.isUsed = false) :
    ∀ r ∈ fs.live, ∀ e ∈ (fs.heap r).extents, e.zone ≠ i := by
  rintro r hr e he rfl
  have hused : fs.zbd.used e.zone ≤ fs.zbd.zoneSize :=
    (hs.used e.zone).trans_le (h.sum_spaceIn_le hi)
  rw [Zone.stored_eq (hused.trans_lt hz)] at hu
  have hzero : fs.zbd.used e.zone = 0 := by simpa [Zone.isUsed, Zbd.used] using hu
  have hle := (length_le_spaceIn he).trans (hs.spaceIn_le hr e.zone)
  have := h.pos r hr e he
  omega

end Fs

end ZenFs
