import ZenFs.Names.Mounted

/-!
# What a call returns, and what it has done

With the outcome of each persist given, the operations on names are functions on
the map from names to files alone: a consistent state stays consistent, and its
map changes as said here.  From that follows when a call that returns OK has made
its change, and when a call that returns an error has made none.
-/

namespace ZenFs

/-- The updates that add the name `n` cannot be persisted. -/
def Outcomes.failing (n : Name) : Outcomes where
  update m := if m = n then .ioError "EIO" else .ok

/-- The map that `files_` is. -/
abbrev NameMap := Name → Option Ref

namespace NameMap

variable (F : NameMap) (src dst n : Name)

/-- The map without the name `n`. -/
def remove : NameMap := fun m ↦ if m = n then none else F m

/-- The file at `src` is at `dst`. -/
def move : NameMap := fun m ↦ if m = dst then F src else if m = src then none else F m

/-- What `DeleteFileNoLock` does to a name of the map. -/
def delete (o : Outcomes) : NameMap × Status :=
  if o.deletion n = .ok then (F.remove n, .ok) else (F, o.deletion n)

/-- What `RenameFileNoLock` does to a name of the map.  It returns OK also if the
rename could not be persisted, and when it has deleted the destination before. -/
def rename (o : Outcomes) : NameMap × Status :=
  if F dst ≠ none ∧ o.deletion dst ≠ .ok then (F, o.deletion dst)
  else if src = dst then (F.remove dst, .ioError "RenameLink: Failed to find the linked file")
  else (if o.update dst = .ok then F.move src dst else F.remove dst, .ok)

variable {F src dst n}

theorem remove_of_none (h : F n = none) : F.remove n = F := by
  funext m
  unfold remove
  split
  · rename_i hm
    rw [hm, h]
  · rfl

theorem remove_ne (h : F n ≠ none) : F.remove n ≠ F := by
  intro heq
  have := congrFun heq n
  rw [remove, if_pos rfl] at this
  exact h this.symm

theorem move_ne (h : F src ≠ none) (hne : src ≠ dst) : F.move src dst ≠ F := by
  intro heq
  have := congrFun heq src
  rw [move, if_neg hne, if_pos rfl] at this
  exact h this.symm

end NameMap

namespace Names

universe u

/-- The map from names to files. -/
def view {σ : Type u} (s : Names σ) : NameMap := fun n ↦ s.files.lookup n

variable {s : Names Unit} {o : Outcomes} {n src dst : Name} {r : Ref}

/-- A call ends in a consistent state, with the given map and status. -/
def Refines (x : Names Unit × Status) (y : NameMap × Status) : Prop := x.1.Ok ∧ (x.1.view, x.2) = y

theorem Refines.exists {x : Names Unit × Status} {y : NameMap × Status} (h : Refines x y) :
    ∃ s, x = (s, y.2) ∧ s.Ok ∧ s.view = y.1 := by
  obtain ⟨hok, rfl⟩ := h
  exact ⟨x.1, rfl, hok, rfl⟩

theorem PersistsAs.eq_update {st : Status} (h : PersistsAs (.ofOutcomes o) s n st) :
    st = o.update n := by
  obtain ⟨fr, hlast, rfl⟩ := h
  simp [World.ofOutcomes, Outcomes.persistRecord, hlast]

/-! ## The operations as functions on the map -/

theorem Ok.deleteFileNoLock_refines (h : s.Ok) (hn : s.view n = some r) :
    Refines (s.deleteFileNoLock (.ofOutcomes o) n) (s.view.delete n o) := by
  obtain ⟨hok, hst, -, hlook⟩ := h.deleteFileNoLock (.ofOutcomes o) hn
  refine ⟨hok, ?_⟩
  have hst' : (s.deleteFileNoLock (.ofOutcomes o) n).2 = o.deletion n := hst
  rw [hst'] at hlook
  rw [hst', NameMap.delete]
  split
  · rename_i hdel
    refine Prod.ext (funext fun m ↦ ?_) hdel
    simpa [hdel, view, NameMap.remove] using hlook m
  · rename_i hdel
    refine Prod.ext (funext fun m ↦ ?_) rfl
    simpa [hdel, view, NameMap.remove] using hlook m

theorem Ok.deleteFileNoLock_nextRef (h : s.Ok) (hn : s.view n = some r) :
    (s.deleteFileNoLock (.ofOutcomes o) n).1.nextRef = s.nextRef := by
  obtain ⟨f, hf, -⟩ := ZoneFile.removeLinkName_eq_ok ((h.link_iff n r).mp hn)
  rw [deleteFileNoLock_eq hn hf rfl]
  split <;> rfl

/-- A file is created, or the map stays as it is. -/
theorem Ok.createFile_refines (h : s.Ok) (hn : s.view n = none) (direct : Bool) :
    Refines (s.createFile (.ofOutcomes o) n direct)
      (if o.update n = .ok then fun m ↦ if m = n then some s.nextRef else s.view m else s.view,
        o.update n) := by
  obtain ⟨st, hst, hret, hok, hlook⟩ := h.createFile (.ofOutcomes o) hn direct
  obtain rfl := hst.eq_update
  refine ⟨hok, Prod.ext (funext fun m ↦ ?_) hret⟩
  refine (hlook m).trans ?_
  by_cases hup : o.update n = .ok <;> simp [hup, view]

theorem Ok.linkFile_refines {l : Name} (h : s.Ok) (hn : s.view n = some r) (hl : s.view l = none) :
    Refines (s.linkFile (.ofOutcomes o) n l)
      (if o.update l = .ok then fun m ↦ if m = l then some r else s.view m else s.view, .ok) := by
  obtain ⟨st, hst, hret, hok, hlook⟩ := h.linkFile (.ofOutcomes o) hn hl
  obtain rfl := hst.eq_update
  refine ⟨hok, Prod.ext (funext fun m ↦ ?_) hret⟩
  refine (hlook m).trans ?_
  by_cases hup : o.update l = .ok <;> simp [hup, view]

theorem Ok.moveFile_refines (h : s.Ok) (hs : s.view src = some r) (hd : s.view dst = none) :
    Refines (s.moveFile (.ofOutcomes o) r src dst)
      (if o.update dst = .ok then s.view.move src dst else s.view, .ok) := by
  obtain ⟨st, hst, hret, hok, hlook⟩ := h.moveFile (.ofOutcomes o) hs hd
  obtain rfl := hst.eq_update
  refine ⟨hok, Prod.ext (funext fun m ↦ ?_) hret⟩
  refine (hlook m).trans ?_
  by_cases hup : o.update dst = .ok
  · have hs' : s.files.lookup src = some r := hs
    simp [hup, NameMap.move, view, hs']
  · simp [hup, view]

/-- `RenameFileNoLock` on a file is `NameMap.rename`. -/
theorem Ok.renameZoneFile_refines (h : s.Ok) (hs : s.view src = some r) (dst : Name) :
    Refines (s.renameZoneFile (.ofOutcomes o) r src dst) (s.view.rename src dst o) := by
  rw [Names.renameZoneFile, NameMap.rename]
  cases hd : s.view dst with
  | none =>
      have hne : src ≠ dst := by
        rintro rfl
        rw [hs] at hd
        cases hd
      have hd' : s.files.lookup dst = none := hd
      simp only [hd', ne_eq, not_true_eq_false, false_and, if_false, hne, NameMap.remove_of_none hd]
      exact h.moveFile_refines hs hd
  | some r' =>
      have hd' : s.files.lookup dst = some r' := hd
      obtain ⟨s₁, hdel, hok, hview⟩ := (h.deleteFileNoLock_refines (o := o) hd).exists
      simp only [hd', ne_eq, reduceCtorEq, not_false_eq_true, true_and, hdel]
      by_cases hst : o.deletion dst = .ok
      · simp only [NameMap.delete, hst, if_true] at hview ⊢
        change Refines (s₁.moveFile _ r src dst) _
        have hdst : s₁.view dst = none := by simp [hview, NameMap.remove]
        by_cases hne : src = dst
        · -- the source is the name that has just been deleted
          subst hne
          rw [hok.moveFile_gone _ hdst]
          exact ⟨hok, by simp [hview]⟩
        · have hsrc : s₁.view src = some r := by simp [hview, NameMap.remove, hne, hs]
          have hmove : s₁.view.move src dst = s.view.move src dst := by
            rw [hview]
            funext m
            by_cases hm : m = dst <;> simp [NameMap.move, NameMap.remove, hm, hne]
          have hmoved := hok.moveFile_refines (o := o) hsrc hdst
          rw [hmove, hview] at hmoved
          simpa [hne] using hmoved
      · simp only [NameMap.delete, hst, if_false, not_false_eq_true, if_true] at hview ⊢
        rcases hst' : o.deletion dst with _ | _ | _ | _ | _ | _ | _
        · exact absurd hst' hst
        all_goals exact ⟨hok, by rw [← hview]; rfl⟩

theorem Ok.renameFileNoLock_refines (h : s.Ok) (hs : s.view src = some r) (dst : Name)
    (fuel : Nat) : ∃ s', renameFileNoLock (.ofOutcomes o) (fuel + 1) s src dst =
        some (s', (s.view.rename src dst o).2) ∧
      s'.Ok ∧ s'.view = (s.view.rename src dst o).1 := by
  obtain ⟨s', heq, hok, hview⟩ := (h.renameZoneFile_refines (o := o) hs dst).exists
  have hs' : s.files.lookup src = some r := hs
  refine ⟨s', ?_, hok, hview⟩
  rw [renameFileNoLock, hs']
  exact congrArg some heq

theorem view_ne_none : s.view n ≠ none ↔ n ∈ s.files := by
  rw [ne_eq, view, AList.lookup_eq_none, not_not]

theorem view_eq_none : s.view n = none ↔ n ∉ s.files := AList.lookup_eq_none

/-! ## A call that returns OK -/

/-- A filesystem with one file. -/
def single (n : Name) : Names Unit := ((fresh ()).createFile (.ofOutcomes {}) n false).1

theorem ok_single (n : Name) : (single n).Ok := by
  have hnew : (fresh ()).files.lookup n = none := by simp [fresh]
  obtain ⟨-, -, -, hok, -⟩ := (mounted_fresh ()).ok.createFile (.ofOutcomes {}) hnew false
  exact hok

/-- The same names map to the same files, which have the same link names. -/
def Unchanged (s s' : Names Unit) : Prop :=
  s'.view = s.view ∧
    ∀ n r, s.view n = some r → ∀ l, l ∈ (s'.heap r).linkfiles ↔ l ∈ (s.heap r).linkfiles

/-- The links follow the map. -/
theorem Ok.unchanged_iff {s' : Names Unit} (h : s.Ok) (h' : s'.Ok) :
    Unchanged s s' ↔ s'.view = s.view := by
  refine ⟨And.left, fun hview ↦ ⟨hview, fun n r _ l ↦ ?_⟩⟩
  rw [← h.link_iff, ← h'.link_iff]
  exact iff_of_eq (congrArg (· = some r) (congrFun hview l))

/-- A call that returns leaves the state unchanged or returns OK. -/
theorem Refines.undone_iff {x : Names Unit × Status} {y : NameMap × Status} (h : s.Ok)
    (hx : Refines x y) :
    (∃ s' st, some x = some (s', st) ∧ (st ≠ .ok → Unchanged s s')) ↔ y.2 = .ok ∨ y.1 = s.view := by
  obtain ⟨F, st⟩ := y
  obtain ⟨s₁, rfl, hok, hview⟩ := hx.exists
  simp only [Option.some.injEq, Prod.mk.injEq]
  constructor
  · rintro ⟨_, _, ⟨rfl, rfl⟩, hun⟩
    by_cases hst : st = .ok
    · exact .inl hst
    · exact .inr (hview.symm.trans ((h.unchanged_iff hok).mp (hun hst)))
  · intro hor
    refine ⟨s₁, st, ⟨rfl, rfl⟩, fun hst ↦ (h.unchanged_iff hok).mpr ?_⟩
    exact hview.trans (hor.resolve_left hst)

/-- `ResetUnusedIOZones` behind a call that succeeds. -/
theorem Refines.reset {x : Names Unit × Status} {y : NameMap × Status} (hx : Refines x y) :
    Refines (andThen x (resetUnusedIOZones (.ofOutcomes o)))
      (y.1, if y.2 = .ok then o.resetUnusedIOZones else y.2) := by
  obtain ⟨F, st⟩ := y
  obtain ⟨s₁, rfl, hok, rfl⟩ := hx.exists
  cases st with
  | ok => exact ⟨hok.call _, rfl⟩
  | _ => exact ⟨hok, rfl⟩

/-- A call on the auxiliary filesystem. -/
theorem Ok.call_refines (h : s.Ok) (f : Unit → Unit × Status) :
    Refines (s.call f) (s.view, (f s.world).2) := ⟨h.call f, rfl⟩

/-- The call is about files of ZenFS, not about directories. -/
def Call.OnFiles (s : Names Unit) : Call → Prop
  | .renameFile source_path _ => source_path ∈ s.files
  | .deleteDirRecursive _ => False
  | _ => True

/-- The calls that cannot fail behind a part of their change: no file has been
deleted that the call then fails to replace, and no zone fails to be reset at the
end. -/
def Call.UndoneWhen (o : Outcomes) (s : Names Unit) : Call → Prop
  | .openWritableFile fname _ reopen =>
      fname ∉ s.files ∨ reopen = true ∨ o.deletion fname ≠ .ok ∨
        (o.update fname = .ok ∧ o.resetUnusedIOZones = .ok)
  | .deleteFile fname => fname ∉ s.files ∨ o.deletion fname ≠ .ok ∨ o.resetUnusedIOZones = .ok
  | .linkFile _ _ => True
  | .renameFile source_path dest_path =>
      (dest_path ∈ s.files ∧ o.deletion dest_path ≠ .ok) ∨
        (source_path ≠ dest_path ∧
          (o.resetUnusedIOZones = .ok ∨ (o.update dest_path ≠ .ok ∧ dest_path ∉ s.files)))
  | .deleteDirRecursive _ => True

theorem Ok.openWritableFile_undone_iff (h : s.Ok) (n : Name) (direct reopen : Bool) :
    (∃ s' st, some (s.openWritableFile (.ofOutcomes o) n direct reopen) = some (s', st) ∧
        (st ≠ .ok → Unchanged s s')) ↔
      Call.UndoneWhen o s (.openWritableFile n direct reopen) := by
  rw [Names.openWritableFile, Call.UndoneWhen]
  cases hn : s.view n with
  | none =>
      have hn' : s.files.lookup n = none := hn
      simp only [hn', view_eq_none.mp hn, not_false_eq_true, true_or, iff_true]
      refine ((h.createFile_refines (o := o) hn direct).undone_iff h).mpr ?_
      by_cases hup : o.update n = .ok
      · exact .inl hup
      · exact .inr (if_neg hup)
  | some r =>
      have hn' : s.files.lookup n = some r := hn
      have hmem : n ∈ s.files := view_ne_none.mp (by simp [hn])
      simp only [hn', hmem, not_true_eq_false, false_or]
      cases reopen with
      | true =>
          simp only [if_true, true_or, iff_true]
          exact ⟨s, .ok, rfl, fun hst ↦ absurd rfl hst⟩
      | false =>
          simp only [Bool.false_eq_true, if_false, false_or]
          have hdel := h.deleteFileNoLock_refines (o := o) hn
          by_cases hst : o.deletion n = .ok
          · rw [NameMap.delete, if_pos hst] at hdel
            obtain ⟨s₁, heq, hok, hview⟩ := hdel.exists
            have hfree : s₁.view n = none := by simp [hview, NameMap.remove]
            rw [heq]
            simp only [hst, ne_eq, not_true_eq_false, false_or]
            refine ((hok.createFile_refines (o := o) hfree direct).reset.undone_iff h).trans ?_
            by_cases hup : o.update n = .ok
            · simp only [hup, if_true, true_and, or_iff_left_iff_imp]
              intro hsame
              -- the name would map to an object that has only now been made
              have hnew := congrFun hsame n
              simp only [if_true, hn, Option.some.injEq] at hnew
              have hnext : s₁.nextRef = s.nextRef := by
                rw [← h.deleteFileNoLock_nextRef (o := o) hn, heq]
              have hlt := h.lt_nextRef n r hn'
              rw [← hnew, hnext] at hlt
              exact hlt.false.elim
            · simp only [hup, if_false, false_and, iff_false, false_or]
              rw [hview]
              exact NameMap.remove_ne (by simp [hn])
          · rw [NameMap.delete, if_neg hst] at hdel
            obtain ⟨s₁, heq, hok, hview⟩ := hdel.exists
            rw [heq]
            simp only [ne_eq, hst, not_false_eq_true, true_or, iff_true]
            rcases hst' : o.deletion n with _ | _ | _ | _ | _ | _ | _
            · exact absurd hst' hst
            all_goals exact ⟨s₁, _, rfl, fun _ ↦ (h.unchanged_iff hok).mpr hview⟩

theorem Ok.deleteFile_undone_iff (h : s.Ok) (n : Name) :
    (∃ s' st, some (s.deleteFile (.ofOutcomes o) n) = some (s', st) ∧ (st ≠ .ok → Unchanged s s')) ↔
      Call.UndoneWhen o s (.deleteFile n) := by
  rw [Names.deleteFile, Call.UndoneWhen]
  cases hn : s.view n with
  | none =>
      have hn' : s.files.lookup n = none := hn
      simp only [view_eq_none.mp hn, not_false_eq_true, true_or, iff_true]
      rw [Names.deleteFileNoLock, hn']
      exact ((h.call_refines _).reset.undone_iff h).mpr (.inr rfl)
  | some r =>
      have hmem : n ∈ s.files := view_ne_none.mp (by simp [hn])
      refine ((h.deleteFileNoLock_refines (o := o) hn).reset.undone_iff h).trans ?_
      by_cases hst : o.deletion n = .ok
      · have hne := @NameMap.remove_ne s.view n (by simp [hn])
        simp [NameMap.delete, hst, hne, hmem]
      · simp [NameMap.delete, hst]

theorem Ok.linkFile_undone (h : s.Ok) (n l : Name) :
    ∃ s' st, some (s.linkFile (.ofOutcomes o) n l) = some (s', st) ∧
    (st ≠ .ok → Unchanged s s') := by
  cases hl : s.view l with
  | some r =>
      have hl' : s.files.lookup l = some r := hl
      rw [Names.linkFile, hl']
      exact ⟨s, _, rfl, fun _ ↦ (h.unchanged_iff h).mpr rfl⟩
  | none =>
      have hl' : s.files.lookup l = none := hl
      cases hn : s.view n with
      | none =>
          have hn' : s.files.lookup n = none := hn
          rw [Names.linkFile, hl', hn']
          exact ((h.call_refines _).undone_iff h).mpr (.inr rfl)
      | some r => exact ((h.linkFile_refines (o := o) hn hl).undone_iff h).mpr (.inl rfl)

theorem Ok.renameFile_undone_iff (h : s.Ok) (hs : s.view src = some r) (dst : Name) (fuel : Nat) :
    (∃ s' st, renameFile (.ofOutcomes o) (fuel + 1) s src dst = some (s', st) ∧
        (st ≠ .ok → Unchanged s s')) ↔ Call.UndoneWhen o s (.renameFile src dst) := by
  have hs' : s.files.lookup src = some r := hs
  have hcall : renameFile (.ofOutcomes o) (fuel + 1) s src dst =
      some (Names.andThen (s.renameZoneFile (.ofOutcomes o) r src dst)
        (resetUnusedIOZones (.ofOutcomes o))) := by
    rw [renameFile, renameFileNoLock, hs']
    dsimp only
    rcases s.renameZoneFile (.ofOutcomes o) r src dst with ⟨s₁, st⟩
    cases st <;> rfl
  rw [hcall]
  refine ((h.renameZoneFile_refines (o := o) hs dst).reset.undone_iff h).trans ?_
  rw [Call.UndoneWhen, ← view_ne_none, not_ne_iff, NameMap.rename]
  by_cases hblocked : s.view dst ≠ none ∧ o.deletion dst ≠ .ok
  · simp [hblocked]
  rw [if_neg hblocked]
  by_cases heq : src = dst
  · have hne := @NameMap.remove_ne s.view dst (by simp [← heq, hs])
    simp [heq, hne, hblocked]
  · simp only [hblocked, false_or, ne_eq, heq, not_false_eq_true, true_and]
    refine or_congr_right ?_
    by_cases hup : o.update dst = .ok
    · simp [hup, @NameMap.move_ne s.view src dst (by simp [hs]) heq]
    · simp only [hup, if_false, not_false_eq_true, true_and]
      refine ⟨fun hsame ↦ ?_, fun hd ↦ NameMap.remove_of_none hd⟩
      by_contra hd
      exact NameMap.remove_ne hd hsame

end Names

end ZenFs
