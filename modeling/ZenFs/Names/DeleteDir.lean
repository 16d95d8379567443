import ZenFs.Names.Outcome

/-!
# Deleting a directory

`DeleteDirRecursive` walks over two trees at once: it lists a directory in the
auxiliary filesystem, adds the files of ZenFS that are directly in it, and goes
down into what the auxiliary filesystem says is a directory.  What the walk can
reach depends on the directories of the auxiliary filesystem between the root of
the walk and a file; a file behind a directory that is missing there is not seen.
-/

namespace ZenFs

universe u

/-- What the walk relies on in the auxiliary filesystem, in which `isDir` are the
directories: a listing has plain names and all directories, directories are told
from files, and only `DeleteDir` takes one away. -/
structure AuxTree {σ : Type u} (W : World σ) (isDir : σ → Name → Prop) : Prop where
  sep_notMem : ∀ {w d cs}, (W.auxGetChildren w d).2 = .ok cs → ∀ c ∈ cs, '/' ∉ c.toList
  mem_children : ∀ {w d cs}, (W.auxGetChildren w d).2 = .ok cs → ∀ c, '/' ∉ c.toList →
    isDir w (childPath d c) → c ∈ cs ∧ c ≠ "." ∧ c ≠ ".."
  found : ∀ {w d e}, (W.auxGetChildren w d).2 = .error e → isDir w d → e.isNotFound = false
  isDirectory_iff : ∀ {w p b}, (W.auxIsDirectory w p).2 = .ok b → (b = true ↔ isDir w p)
  getChildren_error : ∀ {w d e}, (W.auxGetChildren w d).2 = .error e → e ≠ .ok
  isDirectory_error : ∀ {w p e}, (W.auxIsDirectory w p).2 = .error e → e ≠ .ok
  isDir_of_deleteDir : ∀ {w d}, (W.auxDeleteDir w d).2 = .ok → isDir w d
  getChildren : ∀ w d p, isDir (W.auxGetChildren w d).1 p ↔ isDir w p
  isDirectory : ∀ w q p, isDir (W.auxIsDirectory w q).1 p ↔ isDir w p
  deleteFile : ∀ w n p, isDir (W.auxDeleteFile w n).1 p ↔ isDir w p
  persistRecord : ∀ w rec p, isDir (W.persistRecord w rec).1 p ↔ isDir w p
  deleteDir : ∀ w d p, isDir (W.auxDeleteDir w d).1 p → isDir w p
  deleteDir_other : ∀ w d p, withSep p ≠ withSep d → isDir w p → isDir (W.auxDeleteDir w d).1 p

/-- Every directory between `d` and the path is one of the auxiliary filesystem. -/
def Visible (isDir : Name → Prop) (d path : Name) : Prop :=
  ∀ pre post, path = childPath d (pre ++ "/" ++ post) → isDir (childPath d pre)

namespace Visible

variable {isDir isDir' : Name → Prop} {d c m x : Name}

theorem congr (h : ∀ p, isDir' p ↔ isDir p) : Visible isDir' d m ↔ Visible isDir d m := by
  have heq : isDir' = isDir := funext fun p ↦ propext (h p)
  rw [heq]

theorem direct (hc : '/' ∉ c.toList) : Visible isDir d (childPath d c) := by
  intro pre post heq
  rw [childPath_inj.mp heq] at hc
  simp at hc

/-- The first directory on the way. -/
theorem firstComp (h : Visible isDir d (childPath d x)) (hx : '/' ∈ x.toList) :
    isDir (childPath d (ZenFs.firstComp x)) := by
  obtain ⟨y, hy⟩ := exists_firstComp hx
  exact h _ y (congrArg (childPath d) hy)

/-- A path below a child is seen from the child exactly if it is from above. -/
theorem child_iff (hc : '/' ∉ c.toList) (hm : Below (childPath d c) m)
    (hdir : isDir (childPath d c)) : Visible isDir (childPath d c) m ↔ Visible isDir d m := by
  by_cases hne : c = ""
  · subst hne
    have heq : ∀ y, childPath (childPath d "") y = childPath d y := by
      intro y
      rw [childPath, withSep_childPath_empty, ← childPath]
    simp only [Visible, heq]
  · obtain ⟨z, rfl⟩ := below_iff_exists.mp hm
    constructor
    · intro h pre post heq
      rw [childPath_childPath hc hne] at heq
      rcases sep_cases hc (childPath_inj.mp heq) with rfl | ⟨pre', rfl, rfl⟩
      · exact hdir
      · rw [← childPath_childPath hc hne]
        exact h pre' post rfl
    · intro h pre post heq
      rw [heq, childPath_childPath hc hne] at h
      rw [childPath_childPath hc hne]
      exact h (c ++ "/" ++ pre) post (by simp only [String.append_assoc])

end Visible

namespace Names

variable {σ : Type u} {W : World σ} {isDir : σ → Name → Prop} {s s' s₁ s₂ : Names σ} {d c m : Name}

/-! ## The listing -/

theorem mem_getZenFSChildrenNoLock_direct :
    c ∈ s.getZenFSChildrenNoLock d false ↔ childPath d c ∈ s.files ∧ '/' ∉ c.toList := by
  simp only [getZenFSChildrenNoLock, Bool.false_or, List.mem_map, List.mem_filter, Bool.and_eq_true,
    startsWith_fileDir, decide_eq_true_eq, names, List.mem_insertionSort]
  constructor
  · rintro ⟨path, ⟨hmem, hbelow, hlen⟩, rfl⟩
    obtain ⟨x, rfl⟩ := below_iff_exists.mp hbelow
    rw [length_fileDir_childPath, decide_eq_true_eq] at hlen
    rw [relativeChildPath_childPath]
    exact ⟨hmem, hlen⟩
  · rintro ⟨hmem, hc⟩
    refine ⟨childPath d c, ⟨hmem, below_childPath d c, ?_⟩, relativeChildPath_childPath d c⟩
    rw [length_fileDir_childPath, decide_eq_true_eq]
    exact hc

/-! ## What the walk has done -/

/-- What a walk over `d` can have done, at whatever point it has stopped. -/
structure Walked (isDir : σ → Name → Prop) (s s' : Names σ) (d : Name) : Prop where
  ok : s'.Ok
  kept : ∀ m, (Below d m → ¬Visible (isDir s.world) d m) → s'.view m = s.view m
  none_kept : ∀ m, s.view m = none → s'.view m = none
  dirs : ∀ p, isDir s'.world p → isDir s.world p
  dirs_kept : ∀ p, ¬Below d p → withSep p ≠ withSep d → isDir s.world p → isDir s'.world p

namespace Walked

theorem refl (h : s.Ok) : Walked isDir s s d :=
  ⟨h, fun _ _ ↦ rfl, fun _ hm ↦ hm, fun _ hp ↦ hp, fun _ _ _ hp ↦ hp⟩

theorem trans (h : Walked isDir s s₁ d) (h' : Walked isDir s₁ s₂ d) : Walked isDir s s₂ d where
  ok := h'.ok
  kept := by
    intro m hm
    rw [h'.kept m fun hb hv ↦ hm hb fun pre post heq ↦ h.dirs _ (hv pre post heq), h.kept m hm]
  none_kept := fun m hm ↦ h'.none_kept m (h.none_kept m hm)
  dirs := fun p hp ↦ h.dirs p (h'.dirs p hp)
  dirs_kept := fun p hp hne hd ↦ h'.dirs_kept p hp hne (h.dirs_kept p hp hne hd)

/-- Only the state of the world has changed, and no directory. -/
theorem setWorld (h : s.Ok) {w : σ} (hw : ∀ p, isDir w p ↔ isDir s.world p) :
    Walked isDir s { s with world := w } d :=
  ⟨h.setWorld w, fun _ _ ↦ rfl, fun _ hm ↦ hm, fun p hp ↦ (hw p).mp hp, fun p _ _ hp ↦
    (hw p).mpr hp⟩

/-- A walk over a child is part of the walk. -/
theorem of_child (hc : '/' ∉ c.toList) (hdir : isDir s.world (childPath d c))
    (h : Walked isDir s s' (childPath d c)) : Walked isDir s s' d where
  ok := h.ok
  kept := by
    intro m hm
    refine h.kept m fun hb ↦ ?_
    rw [Visible.child_iff hc hb hdir]
    exact hm ((below_childPath d c).trans hb)
  none_kept := h.none_kept
  dirs := h.dirs
  dirs_kept := by
    intro p hp hne hd
    refine h.dirs_kept p (fun hb ↦ hp ((below_childPath d c).trans hb)) (fun heq ↦ ?_) hd
    rcases below_or_eq (heq ▸ (below_childPath d c).withSep : Below d (withSep p)) with hb | heq'
    · exact hp hb
    · exact hne heq'

end Walked

/-! ## One child -/

/-- What the loop does with the child `c`: it deletes a file of ZenFS or of the
auxiliary filesystem, walks over a directory, or fails to tell which it is. -/
inductive Child (W : World σ) (deleteDir : Names σ → Name → Option (Names σ × Status)) (s : Names σ)
    (d c : Name) : Names σ → Status → Prop
  | file {s' st r} (hn : s.view (childPath d c) = some r)
      (h : s.deleteFileNoLock W (childPath d c) = (s', st)) : Child W deleteDir s d c s' st
  | auxFile {s' st} (hn : s.view (childPath d c) = none)
      (hb : (W.auxIsDirectory s.world (childPath d c)).2 = .ok false)
      (h : { s with world := (W.auxIsDirectory s.world (childPath d c)).1 }.deleteFileNoLock W
        (childPath d c) = (s', st)) : Child W deleteDir s d c s' st
  | auxDir {s' st} (hn : s.view (childPath d c) = none)
      (hb : (W.auxIsDirectory s.world (childPath d c)).2 = .ok true)
      (h : deleteDir { s with world := (W.auxIsDirectory s.world (childPath d c)).1 }
        (childPath d c) = some (s', st)) : Child W deleteDir s d c s' st
  | error {e} (hn : s.view (childPath d c) = none)
      (hb : (W.auxIsDirectory s.world (childPath d c)).2 = .error e) :
      Child W deleteDir s d c { s with world := (W.auxIsDirectory s.world (childPath d c)).1 } e

variable {deleteDir : Names σ → Name → Option (Names σ × Status)} {st : Status}

theorem deleteChildren_cons {cs : List Name} (hW : AuxTree W isDir)
    (h : deleteChildren W deleteDir d (c :: cs) s = some (s', st)) :
    ∃ s₁ st₁, Child W deleteDir s d c s₁ st₁ ∧
      ((st₁ ≠ .ok ∧ s' = s₁ ∧ st = st₁) ∨
        (st₁ = .ok ∧ deleteChildren W deleteDir d cs s₁ = some (s', st))) := by
  have hthen : ∀ {x : Option (Names σ × Status)},
      andThen? x (deleteChildren W deleteDir d cs) = some (s', st) →
        ∃ s₁ st₁, x = some (s₁, st₁) ∧ ((st₁ ≠ .ok ∧ s' = s₁ ∧ st = st₁) ∨
          (st₁ = .ok ∧ deleteChildren W deleteDir d cs s₁ = some (s', st))) := by
    intro x hx
    rcases x with _ | ⟨s₁, st₁⟩
    · cases hx
    · refine ⟨s₁, st₁, rfl, ?_⟩
      cases st₁ with
      | ok => exact .inr ⟨rfl, hx⟩
      | _ =>
          cases hx
          exact .inl ⟨nofun, rfl, rfl⟩
  rw [deleteChildren, isDirectoryNoLock] at h
  cases hn : s.view (childPath d c) with
  | some r =>
      have hn' : s.files.lookup (childPath d c) = some r := hn
      rw [hn'] at h
      obtain ⟨s₁, st₁, hx, hcases⟩ := hthen h
      exact ⟨s₁, st₁, .file hn (Option.some.inj hx), hcases⟩
  | none =>
      have hn' : s.files.lookup (childPath d c) = none := hn
      rw [hn'] at h
      dsimp only at h
      rcases hb : (W.auxIsDirectory s.world (childPath d c)).2 with e | is_dir
      · rw [hb] at h
        dsimp only at h
        obtain ⟨rfl, rfl⟩ := Prod.mk.inj (Option.some.inj h)
        exact ⟨_, _, .error hn hb, .inl ⟨hW.isDirectory_error hb, rfl, rfl⟩⟩
      · rw [hb] at h
        obtain ⟨s₁, st₁, hx, hcases⟩ := hthen h
        cases is_dir with
        | true => exact ⟨s₁, st₁, .auxDir hn hb hx, hcases⟩
        | false => exact ⟨s₁, st₁, .auxFile hn hb (Option.some.inj hx), hcases⟩

/-- A file of ZenFS is deleted. -/
theorem Walked.deleteFileNoLock {r : Ref} (hW : AuxTree W isDir) (h : s.Ok) (hc : '/' ∉ c.toList)
    (hn : s.view (childPath d c) = some r)
    (hdel : s.deleteFileNoLock W (childPath d c) = (s', st)) :
    Walked isDir s s' d ∧ (∀ p, isDir s'.world p ↔ isDir s.world p) ∧
      (st = .ok → s'.view (childPath d c) = none) := by
  obtain ⟨hok, -, hworld, hlook⟩ := h.deleteFileNoLock W hn
  rw [hdel] at hok hworld hlook
  have hdirs : ∀ p, isDir s'.world p ↔ isDir s.world p := by
    intro p
    rw [hworld]
    exact hW.persistRecord _ _ p
  refine ⟨⟨hok, ?_, ?_, fun p ↦ (hdirs p).mp, fun p _ _ ↦ (hdirs p).mpr⟩, hdirs, ?_⟩
  · intro m hm
    refine (hlook m).trans (if_neg ?_)
    rintro ⟨-, rfl⟩
    exact hm (below_childPath d c) (Visible.direct hc)
  · intro m hm
    refine (hlook m).trans ?_
    split
    · rfl
    · exact hm
  · intro hst
    exact (hlook _).trans (if_pos ⟨hst, rfl⟩)

/-- What is asked of the walk over a child. -/
structure WalksDown (isDir : σ → Name → Prop)
    (deleteDir : Names σ → Name → Option (Names σ × Status)) : Prop where
  walked : ∀ {s d s' st}, s.Ok → deleteDir s d = some (s', st) → Walked isDir s s' d
  gone : ∀ {s d s'}, s.Ok → deleteDir s d = some (s', .ok) → isDir s.world d ∧
    ∀ m, Below d m → Visible (isDir s.world) d m → s'.view m = none

theorem Child.walked (hW : AuxTree W isDir) (hd : WalksDown isDir deleteDir) (h : s.Ok)
    (hc : '/' ∉ c.toList) (hchild : Child W deleteDir s d c s' st) : Walked isDir s s' d := by
  have hworld := Walked.setWorld (d := d) h (hW.isDirectory s.world (childPath d c))
  cases hchild with
  | file hn hdel => exact (Walked.deleteFileNoLock hW h hc hn hdel).1
  | auxFile hn hb hdel =>
      have hn' : s.files.lookup (childPath d c) = none := hn
      rw [Names.deleteFileNoLock] at hdel
      simp only [hn'] at hdel
      obtain ⟨rfl, rfl⟩ := Prod.mk.inj hdel
      exact hworld.trans (Walked.setWorld hworld.ok (hW.deleteFile _ _))
  | auxDir hn hb hdel =>
      have hdir : isDir (W.auxIsDirectory s.world (childPath d c)).1 (childPath d c) :=
        (hW.isDirectory _ _ _).mpr ((hW.isDirectory_iff hb).mp rfl)
      exact hworld.trans ((hd.walked hworld.ok hdel).of_child hc hdir)
  | error hn hb => exact hworld

/-- The loop over `cs` gets to the path: its first component is still to come, and
twice where a file of that name is in front of the directory. -/
def Pending (cs : List Name) (s : Names σ) (d x : Name) : Prop :=
  firstComp x ∈ cs ∧
    ('/' ∈ x.toList → s.view (childPath d (firstComp x)) ≠ none → 2 ≤ cs.count (firstComp x))

/-- What one child leaves behind is still seen and still to come. -/
theorem Child.pending {x : Name} {cs : List Name} (hW : AuxTree W isDir)
    (hd : WalksDown isDir deleteDir)
    (h : s.Ok) (hc : '/' ∉ c.toList) (hchild : Child W deleteDir s d c s' .ok)
    (hv : Visible (isDir s.world) d (childPath d x)) (hleft : s'.view (childPath d x) ≠ none)
    (hp : Pending (c :: cs) s d x) :
    Visible (isDir s'.world) d (childPath d x) ∧ Pending cs s' d x := by
  have hwalk := hchild.walked hW hd h hc
  have hthere : s.view (childPath d x) ≠ none := fun hnone ↦ hleft (hwalk.none_kept _ hnone)
  have hother : firstComp x ≠ c → Pending cs s' d x := by
    intro hne
    refine ⟨(List.mem_cons.mp hp.1).resolve_left hne, fun hx hfile ↦ ?_⟩
    have hcount := hp.2 hx fun hnone ↦ hfile (hwalk.none_kept _ hnone)
    rwa [List.count_cons_of_ne (Ne.symm hne)] at hcount
  have hself : firstComp x = c → '/' ∉ x.toList → childPath d x = childPath d c := by
    intro heq hx
    rw [← heq, firstComp_of_notMem hx]
  cases hchild with
  | file hn hdel =>
      obtain ⟨-, hdirs, hgone⟩ := Walked.deleteFileNoLock hW h hc hn hdel
      refine ⟨(Visible.congr hdirs).mpr hv, ?_⟩
      by_cases heq : firstComp x = c
      · have hx : '/' ∈ x.toList := by
          by_contra hx
          rw [hself heq hx] at hleft
          exact hleft (hgone rfl)
        have hcount := hp.2 hx (by rw [heq, hn]; nofun)
        rw [heq, List.count_cons_self] at hcount
        refine ⟨heq ▸ List.count_pos_iff.mp (by omega), fun _ hfile ↦ ?_⟩
        rw [heq] at hfile
        exact absurd (hgone rfl) hfile
      · exact hother heq
  | auxFile hn hb hdel =>
      have hn' : s.files.lookup (childPath d c) = none := hn
      rw [Names.deleteFileNoLock] at hdel
      simp only [hn'] at hdel
      have hworld := (Prod.mk.inj hdel).1
      have hdirs : ∀ p, isDir s'.world p ↔ isDir s.world p := by
        intro p
        rw [← hworld]
        exact (hW.deleteFile _ _ p).trans (hW.isDirectory _ _ p)
      refine ⟨(Visible.congr hdirs).mpr hv, hother fun heq ↦ ?_⟩
      by_cases hx : '/' ∈ x.toList
      · have hdir := hv.firstComp hx
        rw [heq, ← hW.isDirectory_iff hb] at hdir
        cases hdir
      · rw [hself heq hx] at hthere
        exact hthere hn
  | auxDir hn hb hdel =>
      have hdir := (hW.isDirectory_iff hb).mp rfl
      have hsame := hW.isDirectory s.world (childPath d c)
      have hok₁ := h.setWorld (W.auxIsDirectory s.world (childPath d c)).1
      have hout : ¬Below (childPath d c) (childPath d x) := by
        intro hb'
        refine hleft ((hd.gone hok₁ hdel).2 _ hb' ?_)
        exact (Visible.congr hsame).mpr ((Visible.child_iff hc hb' hdir).mpr hv)
      constructor
      · intro pre post heq
        have hbelow : Below (childPath d pre) (childPath d x) := heq ▸ below_pre d pre post
        refine (hd.walked hok₁ hdel).dirs_kept _ (fun hb' ↦ hout (hb'.trans hbelow)) ?_
          ((hsame _).mpr (hv pre post heq))
        intro hsep
        rw [Below, hsep] at hbelow
        exact hout hbelow
      · refine hother fun heq ↦ ?_
        by_cases hx : '/' ∈ x.toList
        · obtain ⟨y, hy⟩ := exists_firstComp hx
          rw [heq] at hy
          exact hout (hy ▸ below_pre d c y)
        · rw [hself heq hx] at hthere
          exact hthere hn
  | error hn hb => exact absurd rfl (hW.isDirectory_error hb)

/-! ## The whole walk -/

theorem deleteChildren_walked {cs : List Name} (hW : AuxTree W isDir)
    (hd : WalksDown isDir deleteDir) (h : s.Ok) (hcs : ∀ c ∈ cs, '/' ∉ c.toList)
    (hcall : deleteChildren W deleteDir d cs s = some (s', st)) :
    Walked isDir s s' d ∧ (st = .ok → ∀ x, Visible (isDir s.world) d (childPath d x) →
      (s.view (childPath d x) ≠ none → Pending cs s d x) → s'.view (childPath d x) = none) := by
  induction cs generalizing s with
  | nil =>
      obtain ⟨rfl, rfl⟩ := Prod.mk.inj (Option.some.inj hcall)
      refine ⟨Walked.refl h, fun _ x _ hp ↦ ?_⟩
      by_contra hleft
      exact absurd (hp hleft).1 List.not_mem_nil
  | cons c cs ih =>
      have hc := hcs c (by simp)
      obtain ⟨s₁, st₁, hchild, hcases⟩ := deleteChildren_cons hW hcall
      have hwalk := hchild.walked hW hd h hc
      rcases hcases with ⟨hne, rfl, rfl⟩ | ⟨rfl, hrest⟩
      · exact ⟨hwalk, fun hst ↦ absurd hst hne⟩
      · obtain ⟨hwalk', hgone⟩ := ih hwalk.ok (fun c' hc' ↦ hcs c' (by simp [hc'])) hrest
        refine ⟨hwalk.trans hwalk', fun hst x hv hp ↦ ?_⟩
        by_cases hleft : s₁.view (childPath d x) = none
        · exact hwalk'.none_kept _ hleft
        · have hthere : s.view (childPath d x) ≠ none := fun hnone ↦ hleft (hwalk.none_kept _ hnone)
          obtain ⟨hv', hp'⟩ := hchild.pending hW hd h hc hv hleft (hp hthere)
          exact hgone hst x hv' fun _ ↦ hp'

/-- Everything that is seen in the directory is in its listing. -/
theorem pending_getChildrenNoLock {x : Name} {auxfiles : List Name} (hW : AuxTree W isDir)
    (haux : (W.auxGetChildren s.world d).2 = .ok auxfiles)
    (hv : Visible (isDir s.world) d (childPath d x)) (hx : s.view (childPath d x) ≠ none) :
    Pending ((auxfiles.filter fun f ↦ f != "." && f != "..") ++ s.getZenFSChildrenNoLock d false)
      s d x := by
  have hfile : s.view (childPath d (firstComp x)) ≠ none →
      firstComp x ∈ s.getZenFSChildrenNoLock d false := by
    intro hfile
    refine mem_getZenFSChildrenNoLock_direct.mpr ⟨?_, sep_notMem_firstComp x⟩
    by_contra hmem
    exact hfile (AList.lookup_eq_none.mpr hmem)
  have hdir : '/' ∈ x.toList → firstComp x ∈ auxfiles.filter fun f ↦ f != "." && f != ".." := by
    intro hsep
    obtain ⟨hmem, hdot, hdots⟩ :=
      hW.mem_children haux _ (sep_notMem_firstComp x) (hv.firstComp hsep)
    exact List.mem_filter.mpr ⟨hmem, by simp [hdot, hdots]⟩
  refine ⟨?_, fun hsep hfile' ↦ ?_⟩
  · by_cases hsep : '/' ∈ x.toList
    · exact List.mem_append_left _ (hdir hsep)
    · refine List.mem_append_right _ (hfile ?_)
      rwa [firstComp_of_notMem hsep]
  · have h₁ := List.count_pos_iff.mpr (hdir hsep)
    have h₂ := List.count_pos_iff.mpr (hfile hfile')
    rw [List.count_append]
    omega

/-- `DeleteDir` at the end of the walk. -/
theorem Walked.auxDeleteDir (hW : AuxTree W isDir) (h : Walked isDir s s₁ d) :
    Walked isDir s (s₁.call (W.auxDeleteDir · d)).1 d where
  ok := h.ok.call _
  kept := h.kept
  none_kept := h.none_kept
  dirs := fun p hp ↦ h.dirs p (hW.deleteDir _ _ p hp)
  dirs_kept := fun p hp hne hd ↦ hW.deleteDir_other _ _ p hne (h.dirs_kept p hp hne hd)

/-- One level of the walk. -/
theorem deleteDirRecursiveNoLock_succ {fuel : Nat} (hW : AuxTree W isDir)
    (hd : WalksDown isDir (deleteDirRecursiveNoLock W fuel)) (h : s.Ok)
    (hcall : deleteDirRecursiveNoLock W (fuel + 1) s d = some (s', st)) :
    Walked isDir s s' d ∧ (st = .ok → isDir s.world d ∧
      ∀ m, Below d m → Visible (isDir s.world) d m → s'.view m = none) := by
  have hsame := hW.getChildren s.world d
  have hworld := Walked.setWorld (d := d) h hsame
  rw [deleteDirRecursiveNoLock, getChildrenNoLock] at hcall
  rcases haux : (W.auxGetChildren s.world d).2 with e | auxfiles
  · simp only [haux] at hcall
    by_cases he : e.isNotFound = true
    · -- a directory that is not there is listed as empty, and then not deleted either
      simp only [he, if_true, deleteChildren, andThen?, Option.some.injEq] at hcall
      obtain ⟨rfl, rfl⟩ := Prod.mk.inj hcall
      refine ⟨hworld.auxDeleteDir hW, fun hst ↦ ?_⟩
      have hdir := (hsame d).mp (hW.isDir_of_deleteDir hst)
      rw [hW.found haux hdir] at he
      cases he
    · simp only [he, if_false, Bool.false_eq_true, Option.some.injEq] at hcall
      obtain ⟨rfl, rfl⟩ := Prod.mk.inj hcall
      exact ⟨hworld, fun hst ↦ absurd hst (hW.getChildren_error haux)⟩
  · simp only [haux] at hcall
    have hcs : ∀ c ∈ (auxfiles.filter fun f ↦ f != "." && f != "..") ++
        { s with world := (W.auxGetChildren s.world d).1 }.getZenFSChildrenNoLock d false,
          '/' ∉ c.toList := by
      intro c hc
      rcases List.mem_append.mp hc with hc | hc
      · exact hW.sep_notMem haux c (List.mem_of_mem_filter hc)
      · exact (mem_getZenFSChildrenNoLock_direct.mp hc).2
    rcases hloop : deleteChildren W (deleteDirRecursiveNoLock W fuel) d
      ((auxfiles.filter fun f ↦ f != "." && f != "..") ++
        { s with world := (W.auxGetChildren s.world d).1 }.getZenFSChildrenNoLock d false)
      { s with world := (W.auxGetChildren s.world d).1 } with _ | ⟨s₂, st₂⟩
    · rw [hloop] at hcall
      cases hcall
    · obtain ⟨hwalk, hgone⟩ := deleteChildren_walked hW hd hworld.ok hcs hloop
      have hwalk' := hworld.trans hwalk
      rw [hloop] at hcall
      cases st₂ with
      | ok =>
          obtain ⟨rfl, rfl⟩ := Prod.mk.inj (Option.some.inj hcall)
          refine ⟨hwalk'.auxDeleteDir hW, fun hst ↦ ⟨?_, ?_⟩⟩
          · exact hwalk'.dirs d (hW.isDir_of_deleteDir hst)
          · intro m hm hv
            obtain ⟨x, rfl⟩ := below_iff_exists.mp hm
            refine hgone rfl x ((Visible.congr hsame).mpr hv) fun hx ↦ ?_
            exact pending_getChildrenNoLock (s := s) hW haux hv hx
      | _ =>
          obtain ⟨rfl, rfl⟩ := Prod.mk.inj (Option.some.inj hcall)
          exact ⟨hwalk', by simp⟩

theorem walksDown_deleteDirRecursiveNoLock (hW : AuxTree W isDir) (fuel : Nat) :
    WalksDown isDir (deleteDirRecursiveNoLock W fuel) := by
  induction fuel with
  | zero => exact ⟨fun _ h ↦ (nomatch h), fun _ h ↦ (nomatch h)⟩
  | succ fuel ih =>
      constructor
      · intro s d s' st h hcall
        exact (deleteDirRecursiveNoLock_succ hW ih h hcall).1
      · intro s d s' h hcall
        exact (deleteDirRecursiveNoLock_succ hW ih h hcall).2 rfl

end Names

/-! ## A tree of directories -/

/-- A path in normal form does not end in a dot component. -/
def dotted (path : Name) : Bool := endsWith path "/." || endsWith path "/.."

/-- An auxiliary filesystem that has directories only.  Everything can be persisted. -/
def World.ofDirs : World (List Name) where
  persistRecord w _ := (w, .ok)
  now _ := 0
  auxDeleteFile w fname := (w, .notFound fname)
  auxRenameFile w source_path _ := (w, .notFound source_path)
  auxLinkFile w fname _ := (w, .notFound fname)
  auxGetChildren w dir :=
    (w, if dir ∈ w then
        .ok
          (((w.filter fun p ↦ decide (Below dir p) && !dotted p).map (relativeChildPath dir)).filter
            fun c ↦ decide ('/' ∉ c.toList))
      else .error (.notFound dir))
  auxIsDirectory w path :=
    (w, if path ∈ w && !dotted path then .ok true else .error (.notFound path))
  auxDeleteDir w dir :=
    if dir ∈ w && !dotted dir then
      if w.any fun p ↦ decide (Below dir p) then (w, .ioError "ENOTEMPTY")
        else (w.filter (· != dir), .ok)
    else (w, .notFound dir)
  resetUnusedIOZones w := (w, .ok)

theorem dotted_childPath (d : Name) :
    dotted (childPath d ".") = true ∧ dotted (childPath d "..") = true := by
  obtain ⟨cs, hcs⟩ := exists_withSep d
  simp only [dotted, endsWith, childPath, String.toList_append, hcs, Bool.or_eq_true,
    List.isSuffixOf_iff_suffix]
  exact ⟨.inl ⟨cs, by simp⟩, .inr ⟨cs, by simp⟩⟩

theorem auxTree_ofDirs : AuxTree World.ofDirs fun w p ↦ p ∈ w ∧ dotted p = false where
  sep_notMem := by
    intro w d cs hcs c hc
    simp only [World.ofDirs] at hcs
    split at hcs
    · cases hcs
      simpa using (List.mem_filter.mp hc).2
    · cases hcs
  mem_children := by
    rintro w d cs hcs c hc ⟨hmem, hdot⟩
    simp only [World.ofDirs] at hcs
    split at hcs
    · cases hcs
      refine ⟨List.mem_filter.mpr ⟨List.mem_map.mpr ⟨childPath d c, ?_, ?_⟩, by simpa using hc⟩,
        ?_, ?_⟩
      · exact List.mem_filter.mpr ⟨hmem, by simp [below_childPath, hdot]⟩
      · exact relativeChildPath_childPath d c
      · rintro rfl
        simp [(dotted_childPath d).1] at hdot
      · rintro rfl
        simp [(dotted_childPath d).2] at hdot
    · cases hcs
  found := by
    rintro w d e he ⟨hmem, -⟩
    simp [World.ofDirs, hmem] at he
  isDirectory_iff := by
    intro w p b hb
    simp only [World.ofDirs] at hb
    split at hb
    · rename_i hp
      cases hb
      simpa using hp
    · cases hb
  getChildren_error := by
    intro w d e he
    simp only [World.ofDirs] at he
    split at he
    · cases he
    · cases he
      exact nofun
  isDirectory_error := by
    intro w p e he
    simp only [World.ofDirs] at he
    split at he
    · cases he
    · cases he
      exact nofun
  isDir_of_deleteDir := by
    intro w d hst
    simp only [World.ofDirs] at hst
    split at hst
    · rename_i hd
      simpa using hd
    · cases hst
  getChildren := fun _ _ _ ↦ Iff.rfl
  isDirectory := fun _ _ _ ↦ Iff.rfl
  deleteFile := fun _ _ _ ↦ Iff.rfl
  persistRecord := fun _ _ _ ↦ Iff.rfl
  deleteDir := by
    rintro w d p ⟨hmem, hdot⟩
    refine ⟨?_, hdot⟩
    simp only [World.ofDirs] at hmem
    split at hmem
    · split at hmem
      · exact hmem
      · exact List.mem_of_mem_filter hmem
    · exact hmem
  deleteDir_other := by
    rintro w d p hne ⟨hmem, hdot⟩
    refine ⟨?_, hdot⟩
    simp only [World.ofDirs]
    split
    · split
      · exact hmem
      · have hpd : p ≠ d := fun heq ↦ hne (congrArg withSep heq)
        exact List.mem_filter.mpr ⟨hmem, by simpa using hpd⟩
    · exact hmem

namespace Names

/-- One file of ZenFS, and these directories in the auxiliary filesystem. -/
def inDirs (n : Name) (dirs : List Name) : Names (List Name) :=
  ((fresh dirs).createFile World.ofDirs n false).1

theorem ok_inDirs (n : Name) (dirs : List Name) : (inDirs n dirs).Ok := by
  have hnew : (fresh dirs).files.lookup n = none := by simp [fresh]
  obtain ⟨-, -, -, hok, -⟩ := (mounted_fresh dirs).ok.createFile World.ofDirs hnew false
  exact hok

end Names

end ZenFs
