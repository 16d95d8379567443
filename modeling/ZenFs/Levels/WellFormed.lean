import ZenFs.Levels.Records

/-!
# Well-formed records

An entry of `levelwise_file_list_` is a bare pointer.  `WellFormed` says that it is the
pointer of a file that is there, on the level of the file, in the order of the smallest
keys, and the only one to this file.  It holds in every run in which the functions that
record a file do so once and only while it is not deleted, and in which the level and
the smallest key of a recorded file stay as they are.
-/

namespace ZenFs

open Alloc (PlacementPolicyType)

namespace Records

variable {K : Type} {t u : Records K} {r : Ref} {f : KeyedFile K} {a : Act K}

/-- What the records are meant to be. -/
structure WellFormed (t : Records K) : Prop where
  exists_live : ∀ (l : Nat) (xs : List Ref), t.lists[l]? = some xs →
    ∀ r ∈ xs, r ∈ t.live ∧ (t.files r).isDeleted = false ∧ (t.files r).level = l
  once : t.lists.flatten.Nodup
  sorted : ∀ xs ∈ t.lists, xs.Pairwise fun x y ↦
    t.order.compare (t.files x).smallest (t.files y).smallest ≤ 0

/-- A file that may be recorded on level `l`. -/
def Fits (t : Records K) (l : Nat) (r : Ref) : Prop :=
  r ∈ t.live ∧ (t.files r).isDeleted = false ∧ (t.files r).level = l ∧ (t.files r).hasKeys = true

/-- The invariant of runs. -/
def Tidy (t : Records K) : Prop := Shelves.Sound t.Fits t.le t.lists

theorem Tidy.isWellFormed (h : Tidy t) : WellFormed t where
  exists_live := fun l xs hxs r hr ↦ by
    obtain ⟨hlive, hdel, hlevel, -⟩ := h.good l xs hxs r hr
    exact ⟨hlive, hdel, hlevel⟩
  once := h.once
  sorted := h.sorted

/-- The policies that record the file they place. -/
def records : PlacementPolicyType → Bool
  | .kSameLevelNearbyKeysSimple | .kOverlapChildren | .kOAZA => true
  | _ => false

/-- The steps that keep the records well formed: a file is closed, and gets a zone from a
policy that records it, only while it is not deleted; a file that a policy or a move has
recorded is not recorded once more when it is closed; and the level and the smallest key
of a recorded file are left alone. -/
def Careful (t : Records K) : Act K → Prop
  | .closeWR r _ => recordable (t.files r) = false ∨
      ((t.files r).isDeleted = false ∧ ((t.files r).isRecorded = true ∨ r ∉ t.lists.flatten))
  | .allocate r primary fallback _ _ found _ => recordable (t.files r) = false ∨
      (t.files r).isDeleted = false ∨
        (records primary = false ∧ (found = true ∨ records fallback = false))
  | .setLevel r level => r ∉ t.lists.flatten ∨ level = (t.files r).level
  | .updateInternalKeysRange r first _ => r ∉ t.lists.flatten ∨
      ¬ t.order.internal first (t.files r).smallest < 0
  | _ => True

instance (t : Records K) (a : Act K) : Decidable (t.Careful a) := by
  apply a.casesOn (motive := fun a ↦ Decidable (t.Careful a)) <;> intros <;> unfold Careful
    <;> infer_instance

namespace Tidy

theorem exists_fits (h : Tidy t) (hr : r ∈ t.lists.flatten) : ∃ l, t.Fits l r := by
  obtain ⟨xs, hxs, hr⟩ := List.mem_flatten.mp hr
  obtain ⟨l, hl⟩ := List.mem_iff_getElem?.mp hxs
  exact ⟨l, h.good l xs hl r hr⟩

/-- Nothing but fields that records do not depend on has changed. -/
theorem congr (h : Tidy t) (ho : u.order = t.order) (hl : u.lists = t.lists)
    (hlive : ∀ r ∈ t.lists.flatten, r ∈ t.live → r ∈ u.live)
    (hf : ∀ r ∈ t.lists.flatten, (t.files r).hasKeys = true → (t.files r).isDeleted = false →
      (u.files r).isDeleted = false ∧ (u.files r).level = (t.files r).level ∧
        (u.files r).hasKeys = true ∧ (u.files r).smallest = (t.files r).smallest) : Tidy u := by
  rw [Tidy, hl]
  refine Shelves.Sound.congr h (fun l x hx hfit ↦ ?_) fun x hx y hy hle ↦ ?_
  · obtain ⟨hlx, hdel, hlevel, hkeys⟩ := hfit
    obtain ⟨h₁, h₂, h₃, -⟩ := hf x hx hkeys hdel
    exact ⟨hlive x hx hlx, h₁, h₂.trans hlevel, h₃⟩
  · obtain ⟨l, -, hxdel, -, hxkeys⟩ := h.exists_fits hx
    obtain ⟨k, -, hydel, -, hykeys⟩ := h.exists_fits hy
    obtain ⟨-, -, -, hxsmall⟩ := hf x hx hxkeys hxdel
    obtain ⟨-, -, -, hysmall⟩ := hf y hy hykeys hydel
    rwa [le, ho, hxsmall, hysmall]

theorem mem_live (h : Tidy t) (hr : r ∈ t.lists.flatten) : r ∈ t.live := by
  obtain ⟨l, hfit⟩ := h.exists_fits hr
  exact hfit.1

theorem notDeleted (h : Tidy t) (hr : r ∈ t.lists.flatten) : (t.files r).isDeleted = false := by
  obtain ⟨l, hfit⟩ := h.exists_fits hr
  exact hfit.2.1

/-- A file without an entry may change at will. -/
theorem setFile_of_notMem (h : Tidy t) (hr : r ∉ t.lists.flatten) (f : KeyedFile K) :
    Tidy (t.setFile r f) := by
  refine h.congr rfl rfl (fun _ _ hx ↦ hx) fun x hx hkeys hdel ↦ ?_
  have hne : x ≠ r := fun he ↦ hr (he ▸ hx)
  simp [setFile, hne, hkeys, hdel]

/-- The fields of a file that records depend on stay. -/
theorem setFile (h : Tidy t) (hdel : f.isDeleted = (t.files r).isDeleted)
    (hlevel : f.level = (t.files r).level) (hkeys : (t.files r).hasKeys = true → f.hasKeys = true)
    (hsmall : (t.files r).hasKeys = true → f.smallest = (t.files r).smallest) :
    Tidy (t.setFile r f) := by
  refine h.congr rfl rfl (fun _ _ hx ↦ hx) fun x hx hk hd ↦ ?_
  by_cases hxr : x = r
  · subst hxr
    simp [Records.setFile, hdel, hd, hlevel, hkeys hk, hsmall hk]
  · simp [Records.setFile, hxr, hk, hd]

theorem remove (h : Tidy t) (r : Ref) : Tidy (t.removeZoneFileRecordNoLock r) :=
  show Shelves.Sound t.Fits t.le _ from Shelves.Sound.take h r

theorem notMem_remove (t : Records K) (r : Ref) :
    r ∉ (t.removeZoneFileRecordNoLock r).lists.flatten :=
  fun h ↦ (Shelves.mem_flatten_take.mp h).2 rfl

/-- A file without an entry is added, if it is one to be added. -/
theorem add (h : Tidy t) (hr : r ∉ t.lists.flatten)
    (hf : recordable (t.files r) = true → r ∈ t.live ∧ (t.files r).isDeleted = false) :
    Tidy (t.addZoneFileRecordNoLock r) := by
  rw [addZoneFileRecordNoLock_eq]
  split
  · rename_i hrec
    obtain ⟨hlive, hdel⟩ := hf hrec
    obtain ⟨⟨hkeys, hlevel⟩, -⟩ : ((t.files r).hasKeys = true ∧ 0 ≤ (t.files r).level) ∧ _ := by
      simpa [recordable] using hrec
    have hfit : t.Fits (t.files r).level.toNat r := ⟨hlive, hdel, by omega, hkeys⟩
    show Shelves.Sound t.Fits t.le _
    exact Shelves.Sound.put h (fun a b ↦ t.order.total _ _)
      (fun a b c ↦ t.order.trans _ _ _) hr hfit
  · exact h

theorem removeAdd (h : Tidy t) (hr : r ∈ t.live) (hdel : (t.files r).isDeleted = false) :
    Tidy ((t.removeZoneFileRecordNoLock r).addZoneFileRecordNoLock r) :=
  (h.remove r).add (notMem_remove t r) fun _ ↦ ⟨hr, hdel⟩

theorem relevel (h : Tidy t) (hr : r ∈ t.live) (hdel : (t.files r).isDeleted = false)
    (level : Int) : Tidy (t.relevel r level) := by
  refine ((h.remove r).setFile_of_notMem (notMem_remove t r) _).add (notMem_remove t r)
    fun _ ↦ ⟨hr, ?_⟩
  simpa [Records.setFile, removeZoneFileRecordNoLock] using hdel

end Tidy

theorem rankFiles_records {level first : Int} {ranked : Ranked K}
    (h : t.rankFiles r level first = .ok ranked) : ranked.records = t := by
  unfold rankFiles levelList at h
  split at h
  · cases h
  · dsimp only at h
    split at h
    · split at h
      · cases h
      · cases h
        rfl
    · cases h
      rfl

/-- What a policy does to the records: nothing, or it records the file anew, on its level or
on a deeper one. -/
theorem matchPolicy_records {caza : Int → Bool} {numeric : Bool} {policy : PlacementPolicyType}
    {ranked : Ranked K} (h : t.matchPolicy r caza numeric policy = some (.ok ranked)) :
    ranked.records = t ∨ (records policy = true ∧
      (ranked.records = (t.removeZoneFileRecordNoLock r).addZoneFileRecordNoLock r ∨
        ∃ level, ranked.records = t.relevel r level)) := by
  have hplaza : ∀ {ranked : Ranked K}, t.matchPlaza r = .ok ranked → ranked.records = t := by
    intro ranked h
    unfold matchPlaza at h
    dsimp only at h
    split at h <;> cases h <;> rfl
  cases policy with
  | kSameLevelNearbyKeysSimple =>
      have h := Option.some.inj h
      unfold matchSameLevelNearbyKeysSimple at h
      dsimp only at h
      split at h
      · split at h
        · cases h
        · cases h
          exact .inr ⟨rfl, .inl rfl⟩
      · cases h
        exact .inl rfl
  | kOverlapChildren =>
      have h := Option.some.inj h
      unfold matchOverlapChildren at h
      dsimp only at h
      have hrec : ranked.records =
          if (t.files r).level < t.movedLevel r then t.relevel r (t.movedLevel r) else t := by
        generalize (if (t.files r).level < t.movedLevel r then t.relevel r (t.movedLevel r)
          else t) = u at h ⊢
        split at h
        · exact rankFiles_records h
        · cases h
          rfl
      rw [hrec]
      split
      · exact .inr ⟨rfl, .inr ⟨_, rfl⟩⟩
      · exact .inl rfl
  | kOAZA =>
      have h := Option.some.inj h
      unfold matchOAZA levelList at h
      dsimp only at h
      split at h
      · cases h
        exact .inl rfl
      · split at h
        · cases h
          exact .inr ⟨rfl, .inr ⟨_, rfl⟩⟩
        · split at h
          · cases h
            exact .inl rfl
          · split at h
            · cases h
            · cases h
              exact .inl rfl
  | kOverlapGrandchildren | kCompensatedSize => exact .inl (rankFiles_records (Option.some.inj h))
  | kPlazaBase | kPlazaIntermediate => exact .inl (hplaza (Option.some.inj h))
  | kPlazaAdvanced =>
      rw [matchPolicy] at h
      split at h
      · cases h
        exact .inl rfl
      · exact .inl (hplaza (Option.some.inj h))
  | kLeveledLifetimeBased | kUserDefinedPlacement => cases h
  | _ =>
      cases h
      exact .inl rfl

/-- The existence of files does not depend on the policies. -/
theorem matchPolicy_kept {caza : Int → Bool} {numeric : Bool} {policy : PlacementPolicyType}
    {ranked : Ranked K} (h : t.matchPolicy r caza numeric policy = some (.ok ranked)) :
    ranked.records.live = t.live ∧ (ranked.records.files r).isDeleted = (t.files r).isDeleted := by
  have hadd : ∀ u : Records K, (u.addZoneFileRecordNoLock r).live = u.live ∧
      (u.addZoneFileRecordNoLock r).files = u.files := by
    intro u
    rw [addZoneFileRecordNoLock_eq]
    split <;> exact ⟨rfl, rfl⟩
  rcases matchPolicy_records h with heq | ⟨-, heq | ⟨level, heq⟩⟩
  · rw [heq]
    exact ⟨rfl, rfl⟩
  · rw [heq, (hadd _).1, (hadd _).2]
    exact ⟨rfl, rfl⟩
  · rw [heq, relevel, (hadd _).1, (hadd _).2]
    exact ⟨rfl, by simp [setFile, removeZoneFileRecordNoLock]⟩

/-- A policy keeps the records well formed unless it records a deleted file. -/
theorem Tidy.matchPolicy (h : Tidy t) {caza : Int → Bool} {numeric : Bool}
    {policy : PlacementPolicyType} {ranked : Ranked K}
    (hm : t.matchPolicy r caza numeric policy = some (.ok ranked)) (hr : r ∈ t.live)
    (hok : (t.files r).isDeleted = false ∨ records policy = false) : Tidy ranked.records := by
  rcases matchPolicy_records hm with heq | ⟨hrec, hcase⟩
  · rwa [heq]
  · have hdel := hok.resolve_right (by simp [hrec])
    rcases hcase with heq | ⟨level, heq⟩
    · rw [heq]
      exact h.removeAdd hr hdel
    · rw [heq]
      exact h.relevel hr hdel level

theorem Tidy.getBestOpenZoneMatch (h : Tidy t) {primary fallback : PlacementPolicyType}
    {caza : Int → Bool} {numeric found : Bool} (hr : r ∈ t.live)
    (hok : recordable (t.files r) = false ∨ (t.files r).isDeleted = false ∨
      (records primary = false ∧ (found = true ∨ records fallback = false)))
    (hu : t.getBestOpenZoneMatch r primary fallback caza numeric found = some u) : Tidy u := by
  unfold Records.getBestOpenZoneMatch at hu
  split at hu
  · obtain rfl := Option.some.inj hu
    exact h
  · rename_i hrec
    have hok := hok.resolve_left hrec
    split at hu
    · rename_i ranked hprimary
      have hfirst := h.matchPolicy hprimary hr (hok.imp_right And.left)
      split at hu
      · obtain rfl := Option.some.inj hu
        exact hfirst
      · rename_i hfound
        obtain ⟨hlive, hdel⟩ := matchPolicy_kept hprimary
        split at hu
        · rename_i ranked' hfallback
          obtain rfl := Option.some.inj hu
          refine hfirst.matchPolicy hfallback (hlive ▸ hr) ?_
          rw [hdel]
          exact hok.imp_right fun hok ↦ hok.2.resolve_left hfound
        · cases hu
    · cases hu

theorem noteLevel_eq (t : Records K) (level : Int) :
    ∃ maxLevel, t.noteLevel level = { t with maxLevel := maxLevel } := by
  unfold noteLevel
  split
  · exact ⟨_, rfl⟩
  · exact ⟨t.maxLevel, rfl⟩

theorem Tidy.noteLevel (h : Tidy t) (level : Int) : Tidy (t.noteLevel level) := by
  obtain ⟨maxLevel, heq⟩ := t.noteLevel_eq level
  rw [heq]
  exact h

theorem Tidy.createOrUpdateRecord (h : Tidy t) (hr : r ∈ t.live)
    (hok : recordable (t.files r) = false ∨
      ((t.files r).isDeleted = false ∧ ((t.files r).isRecorded = true ∨ r ∉ t.lists.flatten))) :
    Tidy (t.createOrUpdateRecord r) := by
  unfold Records.createOrUpdateRecord
  dsimp only
  split
  · exact h
  · have hadd : Tidy ((if (t.files r).isRecorded then t.removeZoneFileRecordNoLock r else
        t).addZoneFileRecordNoLock r) := by
      split
      · rename_i hrecorded
        refine (h.remove r).add (notMem_remove t r) fun hrec ↦ ⟨hr, ?_⟩
        exact (hok.resolve_left (by rw [show recordable (t.files r) = true from hrec]; simp)).1
      · rename_i hrecorded
        by_cases hrec : recordable (t.files r) = true
        · obtain ⟨hdel, hin⟩ := hok.resolve_left (by simp [hrec])
          exact h.add (hin.resolve_left hrecorded) fun _ ↦ ⟨hr, hdel⟩
        · rwa [addZoneFileRecordNoLock_eq, if_neg hrec]
    exact hadd.setFile rfl rfl id fun _ ↦ rfl

/-- A careful step keeps the records well formed. -/
theorem Tidy.step [Inhabited K] (h : Tidy t) (hok : t.Careful a) (hu : step t a = some u) :
    Tidy u := by
  unfold Records.step at hu
  split at hu
  · rename_i hen
    cases a with
    | create r ioType =>
        obtain rfl := Option.some.inj hu
        have hr : r ∉ t.lists.flatten := fun hmem ↦ hen (h.mem_live hmem)
        exact (h.setFile_of_notMem hr _).congr rfl rfl (fun _ _ hx ↦ Finset.mem_insert_of_mem hx)
          fun _ _ hk hd ↦ ⟨hd, rfl, hk, rfl⟩
    | updateInternalKeys r key =>
        obtain rfl := Option.some.inj hu
        exact h.setFile rfl rfl (fun _ ↦ rfl) fun hk ↦ by simp [KeyedFile.updateInternalKeys, hk]
    | updateInternalKeysRange r first last =>
        obtain rfl := Option.some.inj hu
        rcases hok with hr | hsmall
        · exact h.setFile_of_notMem hr _
        · refine h.setFile rfl rfl (fun _ ↦ rfl) fun hk ↦ ?_
          simp [KeyedFile.updateInternalKeysRange, hk, hsmall]
    | setLevel r level =>
        obtain rfl := Option.some.inj hu
        rcases hok with hr | rfl
        · exact h.setFile_of_notMem hr _
        · exact h.setFile rfl rfl id fun _ ↦ rfl
    | allocate r primary fallback caza numeric found empty =>
        obtain ⟨v, hv, rfl⟩ := Option.map_eq_some_iff.mp hu
        have hnote := h.noteLevel (t.files r).level
        obtain ⟨maxLevel, heq⟩ := t.noteLevel_eq (t.files r).level
        rw [heq] at hv hnote
        have hmatch := hnote.getBestOpenZoneMatch hen hok hv
        split
        · exact hmatch.noteLevel _
        · exact hmatch
    | closeWR r persisted =>
        obtain rfl := Option.some.inj hu
        exact (h.createOrUpdateRecord hen.1 hok).setFile rfl rfl id fun _ ↦ rfl
    | moveFileToNewLevel r level =>
        obtain rfl := Option.some.inj hu
        exact h.relevel hen.1 hen.2 level
    | reopen r =>
        obtain rfl := Option.some.inj hu
        exact h.setFile rfl rfl id fun _ ↦ rfl
    | delete r =>
        obtain rfl := Option.some.inj hu
        exact (h.remove r).setFile_of_notMem (notMem_remove t r) _
    | destroy r =>
        obtain rfl := Option.some.inj hu
        refine h.congr rfl rfl (fun x hx hlive ↦ Finset.mem_erase.mpr ⟨?_, hlive⟩)
          fun _ _ hk hd ↦ ⟨hd, rfl, hk, rfl⟩
        rintro rfl
        exact absurd (h.notDeleted hx) (by simp [hen.2])
  · cases hu

/-- In every run of careful steps the records are well formed in every state. -/
theorem wellFormed [Inhabited K] (order : KeyCompare K) {t : Records K}
    (h : Reach step (fun t a ↦ t.Careful a) (init order) t) : WellFormed t := by
  have htidy : Tidy t := by
    refine h.invariant (I := Tidy) Shelves.Sound.nil ?_
    intro t u a ht hok hu
    exact ht.step hok hu
  exact htidy.isWellFormed

/-- A file is closed, moved to another level, opened and closed once more. -/
def carefulRun : List (Act Nat) :=
  tableRun 0 1 5 ++ [.allocate 0 .kOAZA .kArrivalTimeBased (fun _ ↦ false) true true false,
    .closeWR 0 true, .moveFileToNewLevel 0 2, .reopen 0, .closeWR 0 true]

theorem wellFormed_carefulRun : ∃ t : Records Nat, t.lists = [[], [], [0]] ∧ WellFormed t := by
  obtain ⟨t, ht, hl⟩ := Option.map_eq_some_iff.mp (show ((runAll (fun t a ↦
    if decide (Careful t a) then step t a else none) (init natOrder) carefulRun).map
      Records.lists) = some [[], [], [0]] by decide)
  exact ⟨t, hl, wellFormed natOrder (Reach.of_decided ht)⟩

/-- A file is deleted while it is open, and closed afterwards. -/
def staleRun : List (Act Nat) :=
  tableRun 0 1 5 ++ [.delete 0, .closeWR 0 true, .destroy 0]

/-- The pointer to the file that was closed after it had been deleted outlives the file. -/
theorem exists_stale : ¬ ∀ t : Records Nat, Reach step (fun _ _ ↦ True) (init natOrder) t →
    WellFormed t := by
  intro h
  obtain ⟨t, ht, hl⟩ := Option.map_eq_some_iff.mp (show ((runAll step (init natOrder) staleRun).map
    fun t ↦ (t.lists, t.live)) = some ([[], [0]], ∅) by decide)
  rw [Prod.mk.injEq] at hl
  have hlive := ((h t (.of_runAll staleRun (fun _ _ ↦ trivial) ht)).exists_live 1 [0]
    (by rw [hl.1]; rfl) 0 (by simp)).1
  rw [hl.2] at hlive
  exact absurd hlive (by simp)

end Records

end ZenFs
