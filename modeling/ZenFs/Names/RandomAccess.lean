import ZenFs.Names.Outcome

/-!
# Opening for random access

`NewRandomAccessFile` looks a name up under `files_mtx_`, and then reads
`files_[fname]` again without the lock.  Where the name has gone in between, the
second access puts it back with a null pointer.  Threads are interleaved with each
locked section, and the access without the lock, as one step.

A state with a null entry is where the property is lost.  What the other calls make
of such an entry is not modelled.
-/

namespace ZenFs

universe u v

/-- The namespace with the null entries of `files_`, the names that threads are
about to read without the lock, and what each thread's last call has returned: no
file of ZenFS, or a pointer, which may be null. -/
structure Opening (T : Type v) (σ : Type u) where
  names : Names σ
  nulls : List Name
  pc : T → Option Name
  handle : T → Option (Option Ref)

/-- The steps of the threads. -/
inductive Access (T : Type v) where
  /-- `NewRandomAccessFile` up to the end of `GetFile`. -/
  | getFile (t : T) (fname : Name)
  /-- `NewRandomAccessFile` behind it: `files_[fname]`. -/
  | index (t : T)
  /-- Another call on names, with fuel for its recursion. -/
  | call (fuel : Nat) (c : Names.Call)
deriving DecidableEq, Repr

namespace Opening

variable {T : Type v} {σ : Type u} [DecidableEq T] {W : World σ} {s s' : Opening T σ}

/-- `ZenFS::NewRandomAccessFile` up to the end of `GetFile`.  A name that is not a
file of ZenFS is opened in the auxiliary filesystem. -/
def getFile (s : Opening T σ) (t : T) (fname : Name) : Option (Opening T σ) :=
  if s.pc t ≠ none then none
  else
    match s.names.files.lookup fname with
    | some _ => some { s with pc := Function.update s.pc t (some fname) }
    | none => some { s with handle := Function.update s.handle t none }

/-- `ZenFS::NewRandomAccessFile` behind `GetFile`: `operator[]` inserts what it does
not find. -/
def index (s : Opening T σ) (t : T) : Option (Opening T σ) :=
  match s.pc t with
  | none => none
  | some fname =>
      let s := { s with pc := Function.update s.pc t none }
      match s.names.files.lookup fname with
      | some r => some { s with handle := Function.update s.handle t (some (some r)) }
      | none =>
          some { s with
            nulls := s.nulls.insert fname
            handle := Function.update s.handle t (some none) }

/-- A step of the machine. -/
def step (W : World σ) (s : Opening T σ) : Access T → Option (Opening T σ)
  | .getFile t fname => s.getFile t fname
  | .index t => s.index t
  | .call fuel c =>
      if s.nulls = [] then (Names.exec W fuel s.names c).map fun x ↦
        { s with names := x.1 } else none

/-- `files_` has no null entry, and no thread has got a null pointer. -/
def NoNull (s : Opening T σ) : Prop := s.nulls = [] ∧ ∀ t, s.handle t ≠ some none

/-- The name that is read without the lock is in `files_`. -/
def StillThere (s : Opening T σ) : Access T → Prop
  | .index t => ∀ fname, s.pc t = some fname → fname ∈ s.names.files
  | _ => True

/-- No thread has opened anything. -/
def ofNames (s : Names σ) : Opening T σ where
  names := s
  nulls := []
  pc := fun _ ↦ none
  handle := fun _ ↦ none

theorem step_getFile {t : T} {fname : Name} (hs : s.step W (.getFile t fname) = some s') :
    s'.names = s.names ∧ s'.nulls = s.nulls ∧ ∀ u, s'.handle u = s.handle u ∨
    s'.handle u = none := by
  simp only [step, getFile] at hs
  split at hs
  · cases hs
  split at hs
  · cases hs
    exact ⟨rfl, rfl, fun _ ↦ .inl rfl⟩
  · cases hs
    refine ⟨rfl, rfl, fun u ↦ ?_⟩
    by_cases hu : u = t
    · subst hu
      exact .inr (Function.update_self ..)
    · exact .inl (Function.update_of_ne hu ..)

/-- Where the name is there, the access returns its file and changes nothing. -/
theorem step_index {t : T} (hok : s.StillThere (.index t)) (hs : s.step W (.index t) = some s') :
    s'.names = s.names ∧ s'.nulls = s.nulls ∧
      ∃ fname r, s.names.files.lookup fname = some r ∧
      s'.handle = Function.update s.handle t (some (some r)) := by
  simp only [step, index] at hs
  split at hs
  · cases hs
  rename_i fname hpc
  obtain ⟨r, hr⟩ := Option.isSome_iff_exists.mp (AList.lookup_isSome.mpr (hok fname hpc))
  simp only [hr] at hs
  cases hs
  exact ⟨rfl, rfl, fname, r, hr, rfl⟩

/-- Where the name has gone, the access puts a null entry into `files_`. -/
theorem step_index_gone {t : T} {fname : Name} (hpc : s.pc t = some fname)
    (hgone : fname ∉ s.names.files) (hs : s.step W (.index t) = some s') : ¬s'.NoNull := by
  simp only [step, index, hpc, AList.lookup_eq_none.mpr hgone] at hs
  cases hs
  rintro ⟨-, hhandle⟩
  exact hhandle t (Function.update_self ..)

/-- While every name that is read without the lock is still in `files_`, no run gets a
null entry into `files_` or returns a null pointer, and names and links that agree go on
to agree. -/
theorem no_null_entries {n : Names σ} (hr : Reach (step W) StillThere (ofNames n : Opening T σ) s) :
    s.NoNull ∧ (n.Ok → s.names.Ok) := by
  refine hr.invariant (I := fun s ↦ s.NoNull ∧ (n.Ok → s.names.Ok)) ⟨⟨rfl, fun _ ↦ nofun⟩, id⟩ ?_
  rintro s s' l ⟨⟨hnulls, hhandle⟩, hok⟩ hthere hs
  cases l with
  | getFile t fname =>
      obtain ⟨hnames, hnulls', hhandle'⟩ := step_getFile hs
      refine ⟨⟨hnulls'.trans hnulls, fun u ↦ ?_⟩, hnames ▸ hok⟩
      rcases hhandle' u with heq | heq <;> rw [heq]
      · exact hhandle u
      · exact nofun
  | index t =>
      obtain ⟨hnames, hnulls', fname, r, -, hhandle'⟩ := step_index hthere hs
      refine ⟨⟨hnulls'.trans hnulls, fun u ↦ ?_⟩, hnames ▸ hok⟩
      rw [hhandle']
      by_cases hu : u = t
      · subst hu
        simp
      · rw [Function.update_of_ne hu]
        exact hhandle u
  | call fuel c =>
      simp only [step, if_pos hnulls] at hs
      obtain ⟨⟨n', st⟩, hexec, rfl⟩ := Option.map_eq_some_iff.mp hs
      exact ⟨⟨hnulls, hhandle⟩, fun hn ↦ Names.keeps_exec W fuel (hok hn) c n' st hexec⟩

/-- A file is created and looked up, deleted by another thread, and then read. -/
theorem null_entry_inserted :
    (runAll (step (.ofOutcomes {})) (ofNames (Names.fresh ()) : Opening Nat Unit)
      [.call 1 (.openWritableFile "/a" false false), .getFile 0 "/a", .call 1 (.deleteFile "/a"),
        .index 0]).map (fun s ↦ (s.nulls, s.handle 0)) = some (["/a"], some none) := by
  decide

/-- The same without the deletion. -/
theorem no_null_entries_undeleted :
    ∃ s, runAll (step (.ofOutcomes {})) (ofNames (Names.fresh ()) : Opening Nat Unit)
        [.call 1 (.openWritableFile "/a" false false), .getFile 0 "/a", .index 0] = some s ∧
      s.NoNull ∧ s.names.Ok := by
  suffices h : _ ∧ (_ → _) from ⟨_, rfl, h.1, h.2 (Names.mounted_fresh ()).ok⟩
  refine no_null_entries (W := .ofOutcomes {}) (n := Names.fresh ()) ?_
  refine Reach.head (i := .call 1 (.openWritableFile "/a" false false)) trivial rfl ?_
  refine Reach.head (i := .getFile 0 "/a") trivial rfl ?_
  refine Reach.head (i := .index 0) (fun fname hpc ↦ ?_) rfl .refl
  cases hpc
  decide

end Opening

end ZenFs
