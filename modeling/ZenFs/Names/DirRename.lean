import ZenFs.Names.Outcome
import Mathlib.Data.List.TakeWhile

/-!
# Renaming a directory

`RenameAuxPathNoLock` renames a directory of the auxiliary filesystem and then
each file of ZenFS below it, one by one; when one of them cannot be renamed, the
ones before it are renamed back.  Both loops are runs of `NameMap.rename` over a
list of children, and `Moved` says what such a run has done to the map.
-/

namespace ZenFs

/-- The auxiliary filesystem has the directory `/d` and can rename it to `/e`. -/
def Outcomes.movable (o : Outcomes) : Outcomes :=
  { o with auxRenameFile := fun n m ↦ if n = "/d" ∧ m = "/e" then .ok else .notFound n }

/-! ## A loop of renames -/

/-- The files at `A c`, for all `c` in the list, have been renamed to `B c`.  Where
that could not be persisted the file has stayed, but not what was in its way. -/
structure Moved (o : Outcomes) (A B : Name → Name) (F G : NameMap) (done : List Name) : Prop where
  source : ∀ c ∈ done, G (A c) = if o.update (B c) = .ok then none else F (A c)
  dest : ∀ c ∈ done, G (B c) = if o.update (B c) = .ok then F (A c) else none
  other : ∀ m, (∀ c ∈ done, m ≠ A c ∧ m ≠ B c) → G m = F m

namespace Moved

variable {o : Outcomes} {A B : Name → Name} {F G : NameMap} {done : List Name} {c : Name}

theorem nil : Moved o A B F F [] := ⟨by simp, by simp, fun _ _ ↦ rfl⟩

section Step

variable (hA : A.Injective) (hB : B.Injective) (hAB : ∀ c c', A c ≠ B c')

include hA hB hAB

/-- A child that has not been renamed yet is where it was. -/
theorem eq_of_notMem (h : Moved o A B F G done) (hc : c ∉ done) :
    G (A c) = F (A c) ∧ G (B c) = F (B c) := by
  constructor
  · refine h.other _ fun c' hc' ↦ ⟨fun heq ↦ ?_, hAB c c'⟩
    exact hc (hA heq ▸ hc')
  · refine h.other _ fun c' hc' ↦ ⟨(hAB c' c).symm, fun heq ↦ ?_⟩
    exact hc (hB heq ▸ hc')

/-- The next child is renamed. -/
theorem rename (h : Moved o A B F G done) (hc : c ∉ done)
    (hfree : ¬(F (B c) ≠ none ∧ o.deletion (B c) ≠ .ok)) :
    (G.rename (A c) (B c) o).2 = .ok ∧ Moved o A B F (G.rename (A c) (B c) o).1 (done ++ [c]) := by
  obtain ⟨hGA, hGB⟩ := h.eq_of_notMem hA hB hAB hc
  have hren : G.rename (A c) (B c) o =
      (if o.update (B c) = .ok then G.move (A c) (B c) else G.remove (B c), .ok) := by
    rw [NameMap.rename, hGB, if_neg hfree, if_neg (hAB c c)]
  have hframe : ∀ m, m ≠ A c → m ≠ B c → (G.rename (A c) (B c) o).1 m = G m := by
    intro m hmA hmB
    rw [hren]
    dsimp only
    split
    · simp [NameMap.move, hmA, hmB]
    · simp [NameMap.remove, hmB]
  refine ⟨by rw [hren], ?_, ?_, ?_⟩
  · intro c' hc'
    rcases List.mem_append.mp hc' with hc' | hc'
    · have hne : c' ≠ c := fun heq ↦ hc (heq ▸ hc')
      rw [hframe _ (hA.ne hne) (hAB c' c), h.source c' hc']
    · obtain rfl := List.mem_singleton.mp hc'
      rw [hren]
      by_cases hup : o.update (B c') = .ok
      · simp [hup, NameMap.move, hAB]
      · simp [hup, NameMap.remove, hAB, hGA]
  · intro c' hc'
    rcases List.mem_append.mp hc' with hc' | hc'
    · have hne : c' ≠ c := fun heq ↦ hc (heq ▸ hc')
      rw [hframe _ (hAB c c').symm (hB.ne hne), h.dest c' hc']
    · obtain rfl := List.mem_singleton.mp hc'
      rw [hren]
      by_cases hup : o.update (B c') = .ok
      · simp [hup, NameMap.move, hGA]
      · simp [hup, NameMap.remove]
  · intro m hm
    obtain ⟨hmA, hmB⟩ := hm c (by simp)
    rw [hframe m hmA hmB]
    exact h.other m fun c' hc' ↦ hm c' (by simp [hc'])

end Step

end Moved

namespace Names

variable {s : Names Unit} {o : Outcomes} {source dest : Name} {fuel : Nat}

/-! ## The children of a directory -/

theorem mem_getZenFSChildrenNoLock {dir c : Name} :
    c ∈ s.getZenFSChildrenNoLock dir true ↔ childPath dir c ∈ s.files := by
  simp only [getZenFSChildrenNoLock, Bool.true_or, Bool.and_true, startsWith_fileDir, List.mem_map,
    List.mem_filter, decide_eq_true_eq, names, List.mem_insertionSort]
  constructor
  · rintro ⟨path, ⟨hmem, hbelow⟩, rfl⟩
    rw [childPath_relativeChildPath hbelow]
    exact hmem
  · intro hmem
    exact ⟨childPath dir c, ⟨hmem, below_childPath dir c⟩, relativeChildPath_childPath dir c⟩

theorem nodup_getZenFSChildrenNoLock (s : Names Unit) (dir : Name) :
    (s.getZenFSChildrenNoLock dir true).Nodup := by
  have hnodup : s.names.Nodup := (List.perm_insertionSort _ _).nodup_iff.mpr s.files.nodupKeys
  refine List.Nodup.map_on ?_ (hnodup.filter _)
  intro path hpath path' hpath' heq
  simp only [startsWith_fileDir, Bool.true_or, Bool.and_true, List.mem_filter, decide_eq_true_eq]
    at hpath hpath'
  rw [← childPath_relativeChildPath hpath.2, heq, childPath_relativeChildPath hpath'.2]

theorem childPath_injective (dir : Name) :
    (childPath dir).Injective := fun _ _ h ↦ childPath_inj.mp h

/-- Directories that are not nested have no path in common. -/
theorem childPath_ne (h : ¬Below source (withSep dest)) (h' : ¬Below dest (withSep source))
    (c c' : Name) : childPath source c ≠ childPath dest c' := by
  intro heq
  have h₁ : (withSep source).toList <+: (childPath source c).toList := below_childPath source c
  have h₂ : (withSep dest).toList <+: (childPath source c).toList := heq ▸ below_childPath dest c'
  rcases List.prefix_or_prefix_of_prefix h₁ h₂ with hp | hp
  · exact h hp
  · exact h' hp

/-! ## The two loops -/

/-- The rename of a child is refused: its destination exists and cannot be deleted. -/
def Blocked (o : Outcomes) (F : NameMap) (dest c : Name) : Prop :=
  F (childPath dest c) ≠ none ∧ o.deletion (childPath dest c) ≠ .ok

instance (o : Outcomes) (F : NameMap) (dest c : Name) : Decidable (Blocked o F dest c) :=
  inferInstanceAs (Decidable (_ ∧ _))

/-- The errors with which `RollbackAuxDirRenameNoLock` gives up. -/
def rollbackErrors : List Status :=
  [.corruption "RollbackAuxDirRenameNoLock: Failed to roll back directory rename",
    .corruption "RollbackAuxDirRenameNoLock: Failed to roll back auxiliary path renaming"]

section Loops

variable {F : NameMap} {done : List Name} (fuel)
  (hne : ∀ c c', childPath source c ≠ childPath dest c')

include hne

omit hne in
/-- A child that is still to come has not been renamed. -/
theorem notMem_of_nodup {c : Name} {done rest : List Name} (h : (done ++ c :: rest).Nodup) :
    c ∉ done := by
  intro hc
  exact (List.nodup_append'.mp h).2.2 hc (by simp)

/-- One step of either loop. -/
theorem Ok.renameChildNoLock {c : Name} (h : s.Ok)
    (hm : Moved o (childPath source) (childPath dest) F s.view done) (hc : c ∉ done)
    (hsrc : F (childPath source c) ≠ none) (hfree : ¬Blocked o F dest c) :
    ∃ s', s.renameChildNoLock (renameFileNoLock (.ofOutcomes o) (fuel + 1)) source dest c =
        some (s', .ok) ∧ s'.Ok ∧
        Moved o (childPath source) (childPath dest) F s'.view (done ++ [c]) := by
  obtain ⟨hst, hm'⟩ :=
    hm.rename (childPath_injective source) (childPath_injective dest) hne hc hfree
  have hsame := hm.eq_of_notMem (childPath_injective source) (childPath_injective dest) hne hc
  obtain ⟨r, hr⟩ := Option.ne_none_iff_exists'.mp (hsame.1 ▸ hsrc)
  obtain ⟨s', hcall, hok, hview⟩ := h.renameFileNoLock_refines (o := o) hr (childPath dest c) fuel
  exact ⟨s', hst ▸ hcall, hok, hview ▸ hm'⟩

/-- The children up to the first one that is refused are renamed. -/
theorem Ok.renameChildren_append (h : s.Ok) (pre rest : List Name)
    (hm : Moved o (childPath source) (childPath dest) F s.view done) (hnodup : (done ++ pre).Nodup)
    (hsrc : ∀ c ∈ pre, F (childPath source c) ≠ none) (hfree : ∀ c ∈ pre, ¬Blocked o F dest c) :
    ∃ s', s'.Ok ∧ Moved o (childPath source) (childPath dest) F s'.view (done ++ pre) ∧
      renameChildren (.ofOutcomes o) (renameFileNoLock (.ofOutcomes o) (fuel + 1)) source dest
          (pre ++ rest) done s =
        renameChildren (.ofOutcomes o) (renameFileNoLock (.ofOutcomes o) (fuel + 1)) source dest
          rest (done ++ pre) s' := by
  induction pre generalizing s done with
  | nil => exact ⟨s, h, by simpa using hm, by simp⟩
  | cons c pre ih =>
      have hc : c ∉ done := notMem_of_nodup hnodup
      obtain ⟨s₁, hcall, h₁, hm₁⟩ := h.renameChildNoLock fuel hne hm hc
        (hsrc c (by simp)) (hfree c (by simp))
      obtain ⟨s', h', hm', heq⟩ := ih h₁ hm₁ (by simpa using hnodup)
        (fun c' hc' ↦ hsrc c' (by simp [hc'])) (fun c' hc' ↦ hfree c' (by simp [hc']))
      refine ⟨s', h', by simpa using hm', ?_⟩
      rw [List.cons_append, renameChildren, hcall]
      simpa using heq

/-- All children are renamed back if all of them can be found. -/
theorem Ok.rollbackChildren_all (h : s.Ok) (rs : List Name)
    (hm : Moved o (childPath source) (childPath dest) F s.view done) (hnodup : (done ++ rs).Nodup)
    (hthere : ∀ c ∈ rs, F (childPath source c) ≠ none ∧ F (childPath dest c) = none) :
    ∃ s', rollbackChildren (renameFileNoLock (.ofOutcomes o) (fuel + 1)) dest source rs s =
    some (s', .ok) ∧
      s'.Ok ∧ Moved o (childPath source) (childPath dest) F s'.view (done ++ rs) := by
  induction rs generalizing s done with
  | nil => exact ⟨s, rfl, h, by simpa using hm⟩
  | cons c rs ih =>
      have hc : c ∉ done := notMem_of_nodup hnodup
      obtain ⟨hsrc, hdst⟩ := hthere c (by simp)
      obtain ⟨s₁, hcall, h₁, hm₁⟩ := h.renameChildNoLock fuel hne hm hc hsrc
        fun hb ↦ hb.1 hdst
      obtain ⟨s', heq, h', hm'⟩ := ih h₁ hm₁ (by simpa using hnodup)
        fun c' hc' ↦ hthere c' (by simp [hc'])
      refine ⟨s', ?_, h', by simpa using hm'⟩
      rw [rollbackChildren, hcall]
      exact heq

/-- A child that cannot be found stops the rollback. -/
theorem Ok.rollbackChildren_stuck (h : s.Ok) (rs : List Name)
    (hm : Moved o (childPath source) (childPath dest) F s.view done) (hnodup : (done ++ rs).Nodup)
    (hdst : ∀ c ∈ rs, F (childPath source c) ≠ none → F (childPath dest c) = none)
    (haux : ∀ c ∈ rs, o.auxRenameFile (childPath source c) (childPath dest c) ≠ .ok)
    (hgone : ∃ c ∈ rs, F (childPath source c) = none) :
    ∃ s' e, rollbackChildren (renameFileNoLock (.ofOutcomes o) (fuel + 1)) dest source rs s =
    some (s', e) ∧
      e ∈ rollbackErrors := by
  induction rs generalizing s done with
  | nil => simp at hgone
  | cons c rs ih =>
      have hc : c ∉ done := notMem_of_nodup hnodup
      rw [rollbackChildren]
      by_cases hsrc : F (childPath source c) = none
      · have hview : s.view (childPath source c) = none :=
          (hm.eq_of_notMem (childPath_injective source) (childPath_injective dest) hne
            hc).1.trans hsrc
        have hlook : s.files.lookup (childPath source c) = none := hview
        have hcall : s.renameChildNoLock (renameFileNoLock (.ofOutcomes o) (fuel + 1))
          source dest c =
            some (s, o.auxRenameFile (childPath source c) (childPath dest c)) := by
          have hst := haux c (by simp)
          rw [Names.renameChildNoLock, renameFileNoLock, hlook]
          simp only [renameAuxPathWith, World.ofOutcomes]
          revert hst
          cases o.auxRenameFile (childPath source c) (childPath dest c) with
          | ok => exact fun hst ↦ absurd rfl hst
          | _ => exact fun _ ↦ rfl
        rw [hcall]
        split
        · rename_i hst
          simp only [Option.some.injEq, Prod.mk.injEq] at hst
          exact absurd hst.2 (haux c (by simp))
        · exact ⟨_, _, rfl, by simp [rollbackErrors]⟩
        · rename_i hst
          cases hst
      · obtain ⟨s₁, hcall, h₁, hm₁⟩ := h.renameChildNoLock fuel hne hm hc hsrc
          fun hb ↦ hb.1 (hdst c (by simp) hsrc)
        rw [hcall]
        refine ih h₁ hm₁ (by simpa using hnodup) (fun c' hc' ↦ hdst c' (by simp [hc']))
          (fun c' hc' ↦ haux c' (by simp [hc'])) ?_
        obtain ⟨c', hc', hgone⟩ := hgone
        rcases List.mem_cons.mp hc' with rfl | hc'
        · exact absurd hgone hsrc
        · exact ⟨c', hc', hgone⟩

end Loops

/-! ## All or nothing -/

/-- What a directory rename that returns has done: all of it, or nothing unless the
rollback has failed. -/
def AllOrNothing (s s' : Names Unit) (st : Status) (source dest : Name) : Prop :=
  (st = .ok →
    (∀ c r, s.view (childPath source c) = some r → s'.view (childPath dest c) = some r) ∧
      ∀ m, Below source m → m ∉ s'.files) ∧
  (st ≠ .ok → st ∉ rollbackErrors → Unchanged s s')

/-- What the function relies on. -/
structure AuxOutcomes (o : Outcomes) (s : Names Unit) (source dest : Name) : Prop where
  /-- `rename` moves no directory into itself, and none onto a directory it is in. -/
  not_nested : o.auxRenameFile source dest = .ok →
    withSep source = withSep dest ∨ (¬Below source (withSep dest) ∧ ¬Below dest (withSep source))
  /-- Files of ZenFS are not in the auxiliary filesystem, where `rename` does not find them. -/
  absent : ∀ c, childPath source c ∈ s.files →
    o.auxRenameFile (childPath dest c) (childPath source c) ≠ .ok
  /-- No other function returns the errors of the rollback. -/
  persist_ne : ∀ n, o.deletion n ∉ rollbackErrors

/-- The children in front of the first one whose rename is refused. -/
def earlier (o : Outcomes) (s : Names Unit) (source dest : Name) : List Name :=
  (s.getZenFSChildrenNoLock source true).takeWhile fun c ↦ decide ¬Blocked o s.view dest c

/-- The renames of a directory that do all or nothing.  For a rename to another
directory either no child is refused and all of them can be persisted, or the
children in front of the first that is refused are noticed to be lost, or they had
free destinations and can be persisted back under their old names. -/
def AllOrNothingWhen (o : Outcomes) (s : Names Unit) (source dest : Name) : Prop :=
  o.auxRenameFile source dest ≠ .ok ∨
    if withSep source = withSep dest then
      o.auxRenameFile dest source ≠ .ok ∨
        ∀ c ∈ (s.getZenFSChildrenNoLock source true).head?, Blocked o s.view dest c
    else if ∀ c ∈ s.getZenFSChildrenNoLock source true, ¬Blocked o s.view dest c then
      ∀ c ∈ s.getZenFSChildrenNoLock source true, o.update (childPath dest c) = .ok
    else
      (∃ c ∈ earlier o s source dest, o.update (childPath dest c) ≠ .ok) ∨
        o.auxRenameFile dest source ≠ .ok ∨
        ∀ c ∈ earlier o s source dest,
          childPath dest c ∉ s.files ∧ o.update (childPath source c) = .ok

theorem renameAuxPathNoLock_of_ok (haux : o.auxRenameFile source dest = .ok) :
    renameAuxPathNoLock (.ofOutcomes o) fuel s source dest =
      renameChildren (.ofOutcomes o) (renameFileNoLock (.ofOutcomes o) fuel) source dest
        (s.getZenFSChildrenNoLock source true) [] s := by
  simp only [renameAuxPathNoLock, renameAuxPathWith, call, World.ofOutcomes, haux]
  rfl

theorem renameAuxPathNoLock_of_error (haux : o.auxRenameFile source dest ≠ .ok) :
    renameAuxPathNoLock (.ofOutcomes o) fuel s source dest =
      some (s, o.auxRenameFile source dest) := by
  simp only [renameAuxPathNoLock, renameAuxPathWith, World.ofOutcomes]
  revert haux
  cases o.auxRenameFile source dest with
  | ok => exact fun h ↦ absurd rfl h
  | _ => exact fun _ ↦ rfl

/-- The last step of the rollback. -/
theorem rollbackAuxDirRenameNoLock_of_ok {rs : List Name} {s' : Names Unit}
    {rename : Names Unit → Name → Name → Option (Names Unit × Status)}
    (hloop : rollbackChildren rename source dest rs s = some (s', .ok)) :
    s.rollbackAuxDirRenameNoLock (.ofOutcomes o) rename source dest rs =
      some (s', if o.auxRenameFile dest source = .ok then .ok else
        .corruption "RollbackAuxDirRenameNoLock: Failed to roll back auxiliary path renaming") := by
  rw [rollbackAuxDirRenameNoLock, hloop]
  simp only [andThen?, call, World.ofOutcomes]
  cases o.auxRenameFile dest source <;> rfl

theorem allOrNothing_of_rollbackError {s' : Names Unit} {st : Status} (h : st ∈ rollbackErrors) :
    AllOrNothing s s' st source dest := by
  refine ⟨?_, fun _ hst ↦ absurd h hst⟩
  rintro rfl
  simp [rollbackErrors] at h

theorem allOrNothing_error_iff {s' : Names Unit} {st : Status} (source dest : Name) (h : s.Ok)
    (h' : s'.Ok) (hst : st ≠ .ok) (hst' : st ∉ rollbackErrors) :
    AllOrNothing s s' st source dest ↔ s'.view = s.view := by
  rw [← h.unchanged_iff h']
  exact ⟨fun hall ↦ hall.2 hst hst', fun hun ↦ ⟨fun hok ↦ absurd hok hst, fun _ _ ↦ hun⟩⟩

/-- The loop stops at a child that is refused. -/
theorem renameChildren_of_error {rename : Names Unit → Name → Name → Option (Names Unit × Status)}
    {s₁ : Names Unit} {st : Status} {c : Name} {cs done : List Name}
    (hcall : s.renameChildNoLock rename source dest c = some (s₁, st)) (hst : st ≠ .ok) :
    renameChildren (.ofOutcomes o) rename source dest (c :: cs) done s =
      andThen? (s₁.rollbackAuxDirRenameNoLock (.ofOutcomes o) rename source dest done) fun s ↦
        some (s, st) := by
  rw [renameChildren, hcall]
  cases st with
  | ok => exact absurd rfl hst
  | _ => rfl

/-- Where the children have been renamed back, the map decides. -/
theorem Ok.renameChildren_refused_iff
    {rename : Names Unit → Name → Name → Option (Names Unit × Status)}
    {s₁ s₂ s₃ : Names Unit} {st : Status} {c : Name} {cs done : List Name} (h : s.Ok)
    (hcall : s₁.renameChildNoLock rename source dest c = some (s₂, st)) (hst : st ≠ .ok)
    (hst' : st ∉ rollbackErrors)
    (hloop : rollbackChildren rename source dest done s₂ = some (s₃, .ok)) (h₃ : s₃.Ok) :
    (∃ s' st', renameChildren (.ofOutcomes o) rename source dest (c :: cs) done s₁ =
      some (s', st') ∧
        AllOrNothing s s' st' source dest) ↔
      o.auxRenameFile dest source ≠ .ok ∨ s₃.view = s.view := by
  rw [renameChildren_of_error hcall hst, rollbackAuxDirRenameNoLock_of_ok hloop]
  by_cases haux : o.auxRenameFile dest source = .ok
  · rw [if_pos haux, ← allOrNothing_error_iff source dest h h₃ hst hst']
    simp only [haux, ne_eq, not_true_eq_false, false_or]
    constructor
    · rintro ⟨_, _, heq, hall⟩
      cases heq
      exact hall
    · exact fun hall ↦ ⟨s₃, st, rfl, hall⟩
  · rw [if_neg haux]
    refine iff_of_true ⟨s₃, _, rfl, ?_⟩ (.inl haux)
    exact allOrNothing_of_rollbackError (by simp [rollbackErrors])

theorem view_childPath_ne_none {c : Name} :
    s.view (childPath source c) ≠ none ↔ c ∈ s.getZenFSChildrenNoLock source true := by
  rw [view_ne_none, mem_getZenFSChildrenNoLock]

/-- A directory renamed to itself: the first child is deleted or refused. -/
theorem Ok.renameChildren_same (h : s.Ok) (hsame : withSep source = withSep dest)
    (hpersist : ∀ n, o.deletion n ∉ rollbackErrors) :
    (∃ s' st, renameChildren (.ofOutcomes o) (renameFileNoLock (.ofOutcomes o) (fuel + 1))
      source dest
        (s.getZenFSChildrenNoLock source true) [] s = some (s', st) ∧
        AllOrNothing s s' st source dest) ↔
      o.auxRenameFile dest source ≠ .ok ∨
        ∀ c ∈ (s.getZenFSChildrenNoLock source true).head?, Blocked o s.view dest c := by
  have hpath : ∀ c, childPath source c = childPath dest c :=
    fun c ↦ by rw [childPath, childPath, hsame]
  cases hcs : s.getZenFSChildrenNoLock source true with
  | nil =>
      have hnone : ∀ c, s.view (childPath source c) = none := by
        intro c
        by_contra hc
        simpa [hcs] using view_childPath_ne_none.mp hc
      refine iff_of_true ⟨s, .ok, rfl, fun _ ↦ ⟨?_, ?_⟩, fun hst ↦ absurd rfl hst⟩ (.inr (by simp))
      · intro c r hr
        rw [hnone] at hr
        cases hr
      · intro m hm
        obtain ⟨c, rfl⟩ := below_iff_exists.mp hm
        exact view_eq_none.mp (hnone c)
  | cons c cs =>
      have hsrc : s.view (childPath source c) ≠ none := view_childPath_ne_none.mpr (by simp [hcs])
      obtain ⟨r, hr⟩ := Option.ne_none_iff_exists'.mp hsrc
      obtain ⟨s₁, hcall, h₁, hview⟩ :=
        h.renameFileNoLock_refines (o := o) hr (childPath dest c) fuel
      have hst : (s.view.rename (childPath source c) (childPath dest c) o).2 ≠ .ok ∧
          (s.view.rename (childPath source c) (childPath dest c) o).2 ∉ rollbackErrors := by
        rw [NameMap.rename, if_pos (hpath c)]
        split
        · rename_i hb
          exact ⟨hb.2, hpersist _⟩
        · exact ⟨by simp, by simp [rollbackErrors]⟩
      have hcall' : s.renameChildNoLock (renameFileNoLock (.ofOutcomes o) (fuel + 1))
        source dest c =
          some (s₁, (s.view.rename (childPath source c) (childPath dest c) o).2) := hcall
      refine (h.renameChildren_refused_iff hcall' hst.1 hst.2 rfl h₁).trans (or_congr_right ?_)
      simp only [List.head?_cons, Option.mem_some_iff, forall_eq', hview]
      rw [NameMap.rename, if_pos (hpath c)]
      by_cases hb : s.view (childPath dest c) ≠ none ∧ o.deletion (childPath dest c) ≠ .ok
      · rw [if_pos hb]
        exact iff_of_true rfl hb
      · rw [if_neg hb]
        exact iff_of_false (NameMap.remove_ne (hpath c ▸ hsrc)) hb

/-- The map behind a loop and the loop that undoes it. -/
theorem view_eq_iff_of_moved_back {F G H : NameMap} {rs : List Name}
    (hsrc : ∀ c ∈ rs, F (childPath source c) ≠ none)
    (hup : ∀ c ∈ rs, o.update (childPath dest c) = .ok)
    (hm : Moved o (childPath source) (childPath dest) F G rs)
    (hb : Moved o (childPath dest) (childPath source) G H rs) :
    H = F ↔ ∀ c ∈ rs, F (childPath dest c) = none ∧ o.update (childPath source c) = .ok := by
  have hA : ∀ c ∈ rs, H (childPath source c) =
      if o.update (childPath source c) = .ok then F (childPath source c) else none := by
    intro c hc
    rw [hb.dest c hc, hm.dest c hc, if_pos (hup c hc)]
  have hB : ∀ c ∈ rs, H (childPath dest c) =
      if o.update (childPath source c) = .ok then none else F (childPath source c) := by
    intro c hc
    rw [hb.source c hc, hm.dest c hc, if_pos (hup c hc)]
  constructor
  · rintro rfl c hc
    by_cases hback : o.update (childPath source c) = .ok
    · exact ⟨by rw [hB c hc, if_pos hback], hback⟩
    · exact absurd (by rw [hA c hc, if_neg hback]) (hsrc c hc)
  · intro hall
    funext m
    by_cases hmA : ∃ c ∈ rs, m = childPath source c
    · obtain ⟨c, hc, rfl⟩ := hmA
      rw [hA c hc, if_pos (hall c hc).2]
    · by_cases hmB : ∃ c ∈ rs, m = childPath dest c
      · obtain ⟨c, hc, rfl⟩ := hmB
        rw [hB c hc, if_pos (hall c hc).2, (hall c hc).1]
      · push Not at hmA hmB
        rw [hb.other m fun c hc ↦ ⟨hmB c hc, hmA c hc⟩, hm.other m fun c hc ↦ ⟨hmA c hc, hmB c hc⟩]

section Apart

variable (hne : ∀ c c', childPath source c ≠ childPath dest c')

include hne

/-- No child is refused: all are there if all could be persisted. -/
theorem Ok.renameChildren_free (h : s.Ok)
    (hfree : ∀ c ∈ s.getZenFSChildrenNoLock source true, ¬Blocked o s.view dest c) :
    (∃ s' st, renameChildren (.ofOutcomes o) (renameFileNoLock (.ofOutcomes o) (fuel + 1))
      source dest
        (s.getZenFSChildrenNoLock source true) [] s = some (s', st) ∧
        AllOrNothing s s' st source dest) ↔
      ∀ c ∈ s.getZenFSChildrenNoLock source true, o.update (childPath dest c) = .ok := by
  have hmem : ∀ c ∈ s.getZenFSChildrenNoLock source true, s.view (childPath source c) ≠ none :=
    fun c hc ↦ view_childPath_ne_none.mpr hc
  obtain ⟨s', h', hm, heq⟩ := h.renameChildren_append fuel (o := o) hne
    (s.getZenFSChildrenNoLock source true) [] Moved.nil (nodup_getZenFSChildrenNoLock s source)
    hmem hfree
  rw [List.append_nil, renameChildren] at heq
  rw [List.nil_append] at hm
  rw [heq]
  constructor
  · rintro ⟨_, _, hres, hall⟩ c hc
    cases hres
    by_contra hup
    have hleft := (hall.1 rfl).2 _ (below_childPath source c)
    rw [← view_eq_none, hm.source c hc, if_neg hup] at hleft
    exact hmem c hc hleft
  · intro hup
    refine ⟨s', .ok, rfl, fun _ ↦ ⟨?_, ?_⟩, fun hst ↦ absurd rfl hst⟩
    · intro c r hr
      have hc : c ∈ s.getZenFSChildrenNoLock source true := view_childPath_ne_none.mp (by simp [hr])
      rw [hm.dest c hc, if_pos (hup c hc), hr]
    · intro m hm'
      obtain ⟨c, rfl⟩ := below_iff_exists.mp hm'
      rw [← view_eq_none]
      by_cases hc : c ∈ s.getZenFSChildrenNoLock source true
      · rw [hm.source c hc, if_pos (hup c hc)]
      · rw [(hm.eq_of_notMem (childPath_injective source) (childPath_injective dest) hne hc).1]
        by_contra hsrc
        exact hc (view_childPath_ne_none.mp hsrc)

/-- A child is refused: the children in front of it are renamed back. -/
theorem Ok.renameChildren_blocked (h : s.Ok) (hpersist : ∀ n, o.deletion n ∉ rollbackErrors)
    (habsent : ∀ c, childPath source c ∈ s.files →
      o.auxRenameFile (childPath dest c) (childPath source c) ≠ .ok)
    (hblocked : ¬∀ c ∈ s.getZenFSChildrenNoLock source true, ¬Blocked o s.view dest c) :
    (∃ s' st, renameChildren (.ofOutcomes o) (renameFileNoLock (.ofOutcomes o) (fuel + 1))
      source dest
        (s.getZenFSChildrenNoLock source true) [] s = some (s', st) ∧
        AllOrNothing s s' st source dest) ↔
      (∃ c ∈ earlier o s source dest, o.update (childPath dest c) ≠ .ok) ∨
        o.auxRenameFile dest source ≠ .ok ∨
        ∀ c ∈ earlier o s source dest,
          childPath dest c ∉ s.files ∧ o.update (childPath source c) = .ok := by
  obtain ⟨b, post, hsplit, hb⟩ : ∃ b post,
      s.getZenFSChildrenNoLock source true = earlier o s source dest ++ b :: post ∧
        Blocked o s.view dest b := by
    obtain ⟨b, post, hdrop⟩ := List.exists_cons_of_ne_nil
      (mt List.dropWhile_eq_nil_iff.mp (by simpa using hblocked) :
        (s.getZenFSChildrenNoLock source true).dropWhile
        (fun c ↦ decide ¬Blocked o s.view dest c) ≠ [])
    refine ⟨b, post, ?_, ?_⟩
    · rw [← hdrop, earlier, List.takeWhile_append_dropWhile]
    · have hhead := List.head?_dropWhile_not (fun c ↦ decide ¬Blocked o s.view dest c)
        (s.getZenFSChildrenNoLock source true)
      rw [hdrop] at hhead
      simpa using hhead
  have hnodup : (earlier o s source dest).Nodup := by
    have := nodup_getZenFSChildrenNoLock s source
    rw [hsplit] at this
    exact this.of_append_left
  have hmem : ∀ c ∈ earlier o s source dest, s.view (childPath source c) ≠ none := by
    intro c hc
    refine view_childPath_ne_none.mpr ?_
    rw [hsplit]
    simp [hc]
  have hfree : ∀ c ∈ earlier o s source dest, ¬Blocked o s.view dest c := by
    intro c hc
    simpa using List.mem_takeWhile_imp hc
  have hb' : b ∉ earlier o s source dest := fun hc ↦ hfree b hc hb
  obtain ⟨s₁, h₁, hm, heq⟩ := h.renameChildren_append fuel (o := o) hne
    (earlier o s source dest) (b :: post) Moved.nil hnodup hmem hfree
  rw [← hsplit, List.nil_append] at heq
  rw [List.nil_append] at hm
  obtain ⟨hbA, hbB⟩ := hm.eq_of_notMem (childPath_injective source)
    (childPath_injective dest) hne hb'
  -- the refused child is left where it is
  obtain ⟨s₂, hcall, h₂, hview₂⟩ : ∃ s₂,
    s₁.renameChildNoLock (renameFileNoLock (.ofOutcomes o) (fuel + 1))
      source dest b = some (s₂, o.deletion (childPath dest b)) ∧ s₂.Ok ∧ s₂.view = s₁.view := by
    have hsrc : s.view (childPath source b) ≠ none := view_childPath_ne_none.mpr (by simp [hsplit])
    obtain ⟨r, hr⟩ := Option.ne_none_iff_exists'.mp (hbA ▸ hsrc)
    obtain ⟨s₂, hcall, h₂, hview⟩ := h₁.renameFileNoLock_refines (o := o) hr (childPath dest b) fuel
    have hb₁ : s.view (childPath dest b) ≠ none ∧ o.deletion (childPath dest b) ≠ .ok := hb
    rw [NameMap.rename, hbB, if_pos hb₁] at hcall hview
    exact ⟨s₂, hcall, h₂, hview⟩
  rw [← hview₂] at hm
  have hne' : ∀ c c', childPath dest c ≠ childPath source c' := fun c c' ↦ (hne c' c).symm
  rw [heq]
  by_cases hup : ∃ c ∈ earlier o s source dest, o.update (childPath dest c) ≠ .ok
  · refine iff_of_true ?_ (.inl hup)
    obtain ⟨c, hc, hup⟩ := hup
    have hback : ∀ c ∈ earlier o s source dest, s₂.view (childPath dest c) ≠ none →
        s₂.view (childPath source c) = none := by
      intro c hc hthere
      rw [hm.dest c hc] at hthere
      rw [hm.source c hc]
      by_cases hup : o.update (childPath dest c) = .ok
      · rw [if_pos hup]
      · exact absurd (if_neg hup) hthere
    obtain ⟨s', e, hloop, he⟩ := h₂.rollbackChildren_stuck fuel (o := o) hne'
      (earlier o s source dest) Moved.nil hnodup hback
      (fun c hc ↦ habsent c (view_ne_none.mp (hmem c hc))) ⟨c, hc, by rw [hm.dest c hc, if_neg hup]⟩
    refine ⟨s', e, ?_, allOrNothing_of_rollbackError he⟩
    rw [renameChildren_of_error hcall hb.2, rollbackAuxDirRenameNoLock, hloop]
    revert he
    cases e with
    | ok => simp [rollbackErrors]
    | _ => exact fun _ ↦ rfl
  · push Not at hup
    have hup' : ¬∃ c ∈ earlier o s source dest, o.update (childPath dest c) ≠ .ok := by
      push Not
      exact hup
    obtain ⟨s₃, hloop, h₃, hm₃⟩ := h₂.rollbackChildren_all fuel (o := o) hne'
      (earlier o s source dest) Moved.nil hnodup fun c hc ↦
        ⟨by rw [hm.dest c hc, if_pos (hup c hc)]; exact hmem c hc,
          by rw [hm.source c hc, if_pos (hup c hc)]⟩
    rw [List.nil_append] at hm₃
    refine (h.renameChildren_refused_iff hcall hb.2 (hpersist _) hloop h₃).trans ?_
    rw [view_eq_iff_of_moved_back hmem hup hm hm₃, or_iff_right hup']
    simp only [view_eq_none]

end Apart

end Names

end ZenFs
