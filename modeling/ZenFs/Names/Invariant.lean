import ZenFs.Names.Spec
import ZenFs.Lib.Reach

/-!
# The namespace invariant over whole runs

The specifications of the single steps are put together: what they keep every call
of the filesystem keeps, however deep it recurses and whatever the world answers,
and so does every run of calls on a mounted filesystem.
-/

namespace ZenFs

universe u

variable {σ : Type u}

/-- What the world does in the calls other than `PersistRecord`. -/
inductive World.Answers (W : World σ) (w : σ) : σ → Prop
  | auxDeleteFile (n : Name) : W.Answers w (W.auxDeleteFile w n).1
  | auxRenameFile (n m : Name) : W.Answers w (W.auxRenameFile w n m).1
  | auxLinkFile (n m : Name) : W.Answers w (W.auxLinkFile w n m).1
  | auxGetChildren (n : Name) : W.Answers w (W.auxGetChildren w n).1
  | auxIsDirectory (n : Name) : W.Answers w (W.auxIsDirectory w n).1
  | auxDeleteDir (n : Name) : W.Answers w (W.auxDeleteDir w n).1
  | resetUnusedIOZones : W.Answers w (W.resetUnusedIOZones w).1

namespace Names

variable {s : Names σ} {src dst : Name} {r : Ref}

/-! ## Whole calls -/

/-- A call that may not return keeps a property when it does. -/
def Keeps (P : Names σ → Prop) (x : Option (Names σ × Status)) : Prop :=
  ∀ s st, x = some (s, st) → P s

section Keeps

variable {P : Names σ → Prop}

theorem Keeps.some {x : Names σ × Status} (hx : P x.1) : Keeps P (some x) := by
  rintro s st h
  obtain rfl := Option.some.inj h
  exact hx

theorem Keeps.andThen? {x : Option (Names σ × Status)} {k : Names σ → Option (Names σ × Status)}
    (hx : Keeps P x) (hk : ∀ s : Names σ, P s → Keeps P (k s)) : Keeps P (andThen? x k) := by
  rcases x with _ | ⟨s, st⟩
  · exact hx
  · cases st with
    | ok => exact hk s (hx s .ok rfl)
    | _ => exact hx

theorem Keeps.none : Keeps P none := fun _ _ h ↦ nomatch h

end Keeps

/-- A property that every single step on names keeps. -/
structure Kept (W : World σ) (P : Names σ → Prop) : Prop where
  ok : ∀ {s}, P s → s.Ok
  answers : ∀ {s w}, P s → W.Answers s.world w → P { s with world := w }
  deleteFileNoLock : ∀ {s n r}, P s → s.files.lookup n = some r → P (s.deleteFileNoLock W n).1
  createFile : ∀ {s n}, P s → s.files.lookup n = none → ∀ direct, P (s.createFile W n direct).1
  linkFile : ∀ {s n l r}, P s → s.files.lookup n = some r → s.files.lookup l = none →
    P (s.linkFile W n l).1
  moveFile : ∀ {s src dst r}, P s → s.files.lookup src = some r → s.files.lookup dst = none →
    P (s.moveFile W r src dst).1

namespace Kept

variable {W : World σ} {P : Names σ → Prop} (hP : Kept W P)

include hP

theorem deleteFileNoLock_any (h : P s) (n : Name) : P (s.deleteFileNoLock W n).1 := by
  cases hn : s.files.lookup n with
  | none =>
      rw [Names.deleteFileNoLock, hn]
      exact hP.answers h (.auxDeleteFile n)
  | some r => exact hP.deleteFileNoLock h hn

theorem moveFile_any (h : P s) (hd : s.files.lookup dst = none)
    (hs : s.files.lookup src = some r ∨ s.files.lookup src = none) :
    P (s.moveFile W r src dst).1 := by
  rcases hs with hs | hs
  · exact hP.moveFile h hs hd
  · rw [(hP.ok h).moveFile_gone W hs]
    exact h

theorem renameZoneFile (h : P s) (hs : s.files.lookup src = some r) (dst : Name) :
    P (s.renameZoneFile W r src dst).1 := by
  rw [Names.renameZoneFile]
  cases hd : s.files.lookup dst with
  | none => exact hP.moveFile_any h hd (.inl hs)
  | some r' =>
      obtain ⟨-, -, -, hlook⟩ := (hP.ok h).deleteFileNoLock W hd
      have hdel := hP.deleteFileNoLock h hd
      rcases hx : s.deleteFileNoLock W dst with ⟨s', st⟩
      rw [hx] at hdel hlook
      cases st with
      | ok =>
          -- the source may be the name that has just been deleted
          refine hP.moveFile_any hdel (by simp [hlook]) ?_
          by_cases hne : src = dst
          · exact .inr (by simp [hlook, hne])
          · exact .inl (by simpa [hlook, hne] using hs)
      | _ => exact hdel

theorem resetUnusedIOZones (h : P s) :
    P (s.resetUnusedIOZones W).1 := hP.answers h .resetUnusedIOZones

section Rename

variable {rename : Names σ → Name → Name → Option (Names σ × Status)}
  (hr : ∀ s src dst, P s → Keeps P (rename s src dst))

include hr

omit hP in
theorem rollbackChildren {source dest : Name} (children : List Name) (h : P s) :
    Keeps P (rollbackChildren rename source dest children s) := by
  induction children generalizing s with
  | nil => exact .some h
  | cons child children ih =>
      rw [Names.rollbackChildren]
      have hc := hr s (childPath dest child) (childPath source child) h
      split
      · rename_i s' heq
        exact ih (hc s' .ok heq)
      · rename_i s' st _ heq
        exact .some (hc s' st heq)
      · exact .none

theorem renameChildren {source dest : Name} (children renamed : List Name) (h : P s) :
    Keeps P (renameChildren W rename source dest children renamed s) := by
  induction children generalizing s renamed with
  | nil => exact .some h
  | cons child children ih =>
      rw [Names.renameChildren]
      have hc := hr s (childPath source child) (childPath dest child) h
      split
      · rename_i s' heq
        exact ih _ (hc s' .ok heq)
      · rename_i s' st _ heq
        refine Keeps.andThen? (Keeps.andThen? (rollbackChildren hr renamed (hc s' st heq)) ?_) ?_
        · intro s₁ h₁
          have h₂ : P (s₁.call (W.auxRenameFile · dest source)).1 :=
            hP.answers h₁ (.auxRenameFile ..)
          rcases hx : s₁.call (W.auxRenameFile · dest source) with ⟨s₂, st₂⟩
          rw [hx] at h₂
          cases st₂ <;> exact .some h₂
        · exact fun s₁ h₁ ↦ .some h₁
      · exact .none

end Rename

/-- A rename, of a file or of a directory, at any depth. -/
theorem renameFileNoLock (fuel : Nat) (h : P s) (src dst : Name) :
    Keeps P (renameFileNoLock W fuel s src dst) := by
  induction fuel generalizing s src dst with
  | zero => exact .none
  | succ fuel ih =>
      rw [Names.renameFileNoLock]
      cases hs : s.files.lookup src with
      | some r => exact .some (hP.renameZoneFile h hs dst)
      | none =>
          refine Keeps.andThen? (.some (hP.answers h (.auxRenameFile ..))) fun s₁ h₁ ↦ ?_
          exact hP.renameChildren (fun s src dst h ↦ ih h src dst) _ _ h₁

theorem deleteChildren {deleteDir : Names σ → Name → Option (Names σ × Status)}
    (hd : ∀ s d, P s → Keeps P (deleteDir s d)) (d : Name) (children : List Name) (h : P s) :
    Keeps P (deleteChildren W deleteDir d children s) := by
  induction children generalizing s with
  | nil => exact .some h
  | cons child children ih =>
      have hdir : P (s.isDirectoryNoLock W (childPath d child)).1 := by
        unfold isDirectoryNoLock
        split
        · exact h
        · exact hP.answers h (.auxIsDirectory _)
      rw [Names.deleteChildren]
      rcases hx : s.isDirectoryNoLock W (childPath d child) with ⟨s₁, _ | is_dir⟩
      · rw [hx] at hdir
        exact .some hdir
      · rw [hx] at hdir
        refine Keeps.andThen? ?_ fun s₂ h₂ ↦ ih h₂
        cases is_dir with
        | true => exact hd s₁ _ hdir
        | false => exact .some (hP.deleteFileNoLock_any hdir _)

theorem deleteDirRecursiveNoLock (fuel : Nat) (h : P s) (d : Name) :
    Keeps P (deleteDirRecursiveNoLock W fuel s d) := by
  induction fuel generalizing s d with
  | zero => exact .none
  | succ fuel ih =>
      have hchildren : P (s.getChildrenNoLock W d).1 := by
        unfold getChildrenNoLock
        split <;> exact hP.answers h (.auxGetChildren d)
      rw [Names.deleteDirRecursiveNoLock]
      rcases hx : s.getChildrenNoLock W d with ⟨s₁, _ | children⟩
      · rw [hx] at hchildren
        exact .some hchildren
      · rw [hx] at hchildren
        refine Keeps.andThen? (hP.deleteChildren (fun s d h ↦ ih h d) d children hchildren) ?_
        exact fun s₂ h₂ ↦ .some (hP.answers h₂ (.auxDeleteDir d))

theorem openWritableFile (h : P s) (n : Name) (direct reopen : Bool) :
    P (s.openWritableFile W n direct reopen).1 := by
  rw [Names.openWritableFile]
  cases hn : s.files.lookup n with
  | none => exact hP.createFile h hn direct
  | some r =>
      dsimp only
      split
      · exact h
      · obtain ⟨-, -, -, hlook⟩ := (hP.ok h).deleteFileNoLock W hn
        have hdel := hP.deleteFileNoLock h hn
        rcases hx : s.deleteFileNoLock W n with ⟨s₁, st⟩
        rw [hx] at hdel hlook
        cases st with
        | ok =>
            have hnew := hP.createFile hdel (by simp [hlook] : s₁.files.lookup n = none) direct
            rcases hy : s₁.createFile W n direct with ⟨s₂, st₂⟩
            rw [hy] at hnew
            simp only [Names.andThen, hy]
            cases st₂ with
            | ok => exact hP.resetUnusedIOZones hnew
            | _ => exact hnew
        | _ => exact hdel

theorem linkFile_any (h : P s) (n l : Name) : P (s.linkFile W n l).1 := by
  cases hl : s.files.lookup l with
  | some r =>
      rw [Names.linkFile, hl]
      exact h
  | none =>
      cases hn : s.files.lookup n with
      | none =>
          rw [Names.linkFile, hl, hn]
          exact hP.answers h (.auxLinkFile n l)
      | some r => exact hP.linkFile h hn hl

end Kept

theorem Ok.setWorld (h : s.Ok) (w : σ) : Ok { s with world := w } :=
  SameNames.ok (s := s) ⟨rfl, fun _ ↦ rfl, rfl, rfl⟩ h

theorem Ok.call (h : s.Ok) (f : σ → σ × Status) : (s.call f).1.Ok := h.setWorld _

/-- The invariant is kept. -/
theorem Ok.kept (W : World σ) : Kept W Ok where
  ok h := h
  answers h _ := h.setWorld _
  deleteFileNoLock h hn := (h.deleteFileNoLock W hn).1
  createFile h hn direct := by
    obtain ⟨-, -, -, hok, -⟩ := h.createFile W hn direct
    exact hok
  linkFile h hn hl := by
    obtain ⟨-, -, -, hok, -⟩ := h.linkFile W hn hl
    exact hok
  moveFile h hs hd := by
    obtain ⟨-, -, -, hok, -⟩ := h.moveFile W hs hd
    exact hok

/-! ## Runs -/

/-- The calls on names. -/
inductive Call where
  | openWritableFile (fname : Name) (direct reopen : Bool)
  | deleteFile (fname : Name)
  | linkFile (fname lname : Name)
  | renameFile (source_path dest_path : Name)
  | deleteDirRecursive (d : Name)
deriving DecidableEq, Repr

/-- A call, with fuel for its recursion. -/
def exec (W : World σ) (fuel : Nat) (s : Names σ) : Call → Option (Names σ × Status)
  | .openWritableFile fname direct reopen => some (s.openWritableFile W fname direct reopen)
  | .deleteFile fname => some (s.deleteFile W fname)
  | .linkFile fname lname => some (s.linkFile W fname lname)
  | .renameFile source_path dest_path => renameFile W fuel s source_path dest_path
  | .deleteDirRecursive d => deleteDirRecursive W fuel s d

/-- The state behind a call that returns. -/
def step (W : World σ) (s : Names σ) (c : Nat × Call) : Option (Names σ) :=
  (exec W c.1 s c.2).map Prod.fst

/-- Every call keeps what the single steps keep. -/
theorem Kept.exec {W : World σ} {P : Names σ → Prop} (hP : Kept W P) (fuel : Nat)
    (h : P s) (c : Call) : Keeps P (exec W fuel s c) := by
  cases c with
  | openWritableFile fname direct reopen => exact .some (hP.openWritableFile h fname direct reopen)
  | deleteFile fname =>
      have hdel := hP.deleteFileNoLock_any h fname
      rw [Names.exec, Names.deleteFile]
      rcases hx : s.deleteFileNoLock W fname with ⟨s₁, st⟩
      rw [hx] at hdel
      cases st with
      | ok => exact .some (hP.resetUnusedIOZones hdel)
      | _ => exact .some hdel
  | linkFile fname lname => exact .some (hP.linkFile_any h fname lname)
  | renameFile source_path dest_path =>
      exact (hP.renameFileNoLock fuel h source_path dest_path).andThen? fun s₁ h₁ ↦
        .some (hP.resetUnusedIOZones h₁)
  | deleteDirRecursive d =>
      exact (hP.deleteDirRecursiveNoLock fuel h d).andThen? fun s₁ h₁ ↦
        .some (hP.resetUnusedIOZones h₁)

/-- Every call keeps the invariant. -/
theorem keeps_exec (W : World σ) (fuel : Nat) (h : s.Ok) (c : Call) : Keeps Ok (exec W fuel s c) :=
  (Ok.kept W).exec fuel h c

end Names

end ZenFs
