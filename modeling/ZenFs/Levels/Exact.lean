import ZenFs.Fs.Space
import ZenFs.Levels.Bytes
import ZenFs.Lib.Pool
import Mathlib.Algebra.BigOperators.Ring.Finset

/-!
# Exactness of the byte counts

`bytes_of_level` is meant to say, for each level, how many bytes of a zone are extents
of that level.  It does, in every run in which the functions that do not count have
nothing to count.  The space counters of the zones are needed for this: a zone is
reset only when nothing in it is counted as used.
-/

namespace ZenFs

open Finset

/-- The bytes in zone `i` of the extents that have level `l`. -/
def bytesIn (i : ZoneId) (l : Int) (es : List LevelExtent) : Int :=
  (es.map fun e ↦ if e.zone = i ∧ e.level = l then (e.length : Int) else 0).sum

/-- The bytes in zone `i` of a list of extents. -/
def heldIn (i : ZoneId) (es : List LevelExtent) : Int :=
  (es.map fun e ↦ if e.zone = i then (e.length : Int) else 0).sum

section Sums

variable (i : ZoneId) (l : Int) (e : LevelExtent) (es es' : List LevelExtent)

@[simp] theorem bytesIn_nil : bytesIn i l [] = 0 := rfl

@[simp] theorem bytesIn_cons :
    bytesIn i l (e :: es) = (if e.zone = i ∧ e.level = l then (e.length : Int) else 0) +
    bytesIn i l es := by
  simp [bytesIn]

@[simp] theorem bytesIn_append : bytesIn i l (es ++ es') = bytesIn i l es + bytesIn i l es' := by
  simp [bytesIn]

@[simp] theorem heldIn_nil : heldIn i [] = 0 := rfl

@[simp] theorem heldIn_cons :
    heldIn i (e :: es) = (if e.zone = i then (e.length : Int) else 0) + heldIn i es := by
  simp [heldIn]

@[simp] theorem heldIn_append : heldIn i (es ++ es') = heldIn i es + heldIn i es' := by
  simp [heldIn]

theorem bytesIn_nonneg : 0 ≤ bytesIn i l es := by
  induction es with
  | nil => exact Int.le_refl _
  | cons e es ih =>
      rw [bytesIn_cons]
      split <;> omega

theorem bytesIn_le_heldIn : bytesIn i l es ≤ heldIn i es := by
  induction es with
  | nil => exact Int.le_refl _
  | cons e es ih =>
      rw [bytesIn_cons, heldIn_cons]
      by_cases hz : e.zone = i
      · rw [if_pos hz]
        split <;> omega
      · rw [if_neg hz, if_neg fun h ↦ hz h.1]
        omega

theorem heldIn_nonneg : 0 ≤ heldIn i es := (bytesIn_nonneg i 0 es).trans (bytesIn_le_heldIn i 0 es)

theorem heldIn_eq_spaceIn : heldIn i es = spaceIn i (es.map (·.toZoneExtent)) := by
  induction es with
  | nil => rfl
  | cons e es ih =>
      rw [heldIn_cons, List.map_cons, spaceIn_cons, ih]
      split <;> simp

end Sums

theorem length_le_bytesIn {e : LevelExtent} {es : List LevelExtent} (h : e ∈ es) :
    (e.length : Int) ≤ bytesIn e.zone e.level es := by
  induction es with
  | nil => simp at h
  | cons x es ih =>
      rw [bytesIn_cons]
      rcases List.mem_cons.mp h with rfl | h
      · have := bytesIn_nonneg e.zone e.level es
        rw [if_pos ⟨rfl, rfl⟩]
        omega
      · have := ih h
        split <;> omega

/-- Extents without a level count at none. -/
theorem bytesIn_of_neg {i : ZoneId} {l : Int} {es : List LevelExtent} (hl : 0 ≤ l)
    (h : ∀ e ∈ es, e.level < 0 ∨ e.length = 0) : bytesIn i l es = 0 := by
  induction es with
  | nil => rfl
  | cons e es ih =>
      rw [bytesIn_cons, ih fun e' he ↦ h e' (by simp [he])]
      rcases h e (by simp) with he | he
      · rw [if_neg (by omega)]
        rfl
      · simp [he]

/-- Relabelling does not move bytes between zones. -/
theorem heldIn_relabel (i : ZoneId) (level : Int) (es : List LevelExtent) :
    heldIn i (es.map fun e ↦ { e with level := level }) = heldIn i es := by
  simp [heldIn, Function.comp_def]

namespace LevelFs

variable {s t : LevelFs} {a : LevelAct} {r : Ref} {i : ZoneId} {l : Int}

/-! ## Space counters -/

/-- The bytes in zone `i` of the new extents that have been moved. -/
def movedIn (i : ZoneId) (ps : List (LevelExtent × Bool)) : Int :=
  heldIn i ((ps.filter Prod.snd).map Prod.fst)

@[simp] theorem movedIn_nil (i : ZoneId) : movedIn i [] = 0 := rfl

@[simp] theorem movedIn_cons (i : ZoneId) (p : LevelExtent × Bool)
    (ps : List (LevelExtent × Bool)) :
    movedIn i (p :: ps) = (if p.2 = true ∧ p.1.zone = i then (p.1.length : Int) else 0) +
    movedIn i ps := by
  obtain ⟨e, b⟩ := p
  cases b <;> simp [movedIn]

/-- The bytes that a migration has written to zone `i` for extents that are not yet in
the list of the file. -/
def pending (s : LevelFs) (i : ZoneId) : Int :=
  match s.gc with
  | none => 0
  | some m => movedIn i m.extents

/-- A new extent of a migration is a copy of the old one, at the same place until it is
moved. -/
def Copies (e : LevelExtent) (p : LevelExtent × Bool) : Prop :=
  p.1.length = e.length ∧ (p.2 = false → p.1.zone = e.zone ∧ p.1.start = e.start)

/-- The space counters cover all extents, those of a running migration included. -/
structure Held (s : LevelFs) : Prop where
  used : ∀ i, ∑ r ∈ s.live, heldIn i (s.files r).extents + s.pending i ≤ (s.zbd.used i : Int)
  gc : ∀ m ∈ s.gc, m.file ∈ s.live ∧ List.Forall₂ Copies (s.files m.file).extents m.extents

theorem pending_nonneg (s : LevelFs) (i : ZoneId) : 0 ≤ s.pending i := by
  unfold pending
  split
  · exact Int.le_refl _
  · exact heldIn_nonneg _ _

namespace Held

/-- Nothing that is counted has changed. -/
theorem congr (h : Held s) (hl : t.live = s.live) (hg : t.gc = s.gc)
    (hf : ∀ r, (t.files r).extents = (s.files r).extents) (hu : ∀ i, t.zbd.used i = s.zbd.used i) :
    Held t where
  used := by
    intro i
    simpa only [hl, hf, hu, pending, hg] using h.used i
  gc := by
    intro m hm
    rw [hl, hf]
    exact h.gc m (hg ▸ hm)

/-- The extents of a file that is not being migrated have changed, and the counters follow. -/
theorem set (h : Held s) (hr : s.Settled r) (hl : t.live = s.live) (hg : t.gc = s.gc)
    (hf : ∀ r', r' ≠ r → (t.files r').extents = (s.files r').extents)
    (hu : ∀ i, (t.zbd.used i : Int) =
      s.zbd.used i + (heldIn i (t.files r).extents - heldIn i (s.files r).extents)) : Held t where
  used := by
    intro i
    have hsum := Pool.sum_of_eq_off (s := s.live) (f := fun r ↦ heldIn i (s.files r).extents)
      (g := fun r ↦ heldIn i (t.files r).extents) hr.1 fun r' _ hne ↦ by simp only [hf r' hne]
    have := h.used i
    simp only [pending, hg] at this ⊢
    rw [hl, hsum, hu]
    omega
  gc := by
    intro m hm
    rw [hg] at hm
    rw [hl, hf _ (hr.2 m hm)]
    exact h.gc m hm

/-- The extents of one file are counted in full. -/
theorem heldIn_le (h : Held s) (hr : r ∈ s.live) (i : ZoneId) :
    heldIn i (s.files r).extents ≤ (s.zbd.used i : Int) := by
  have hle : heldIn i (s.files r).extents ≤ ∑ r ∈ s.live, heldIn i (s.files r).extents :=
    single_le_sum (f := fun r ↦ heldIn i (s.files r).extents) (fun r _ ↦ heldIn_nonneg i _) hr
  have := h.used i
  have := s.pending_nonneg i
  omega

end Held

@[simp] theorem advance_used (zbd : Zbd) (i : ZoneId) (n : Nat) (j : ZoneId) :
    (advance zbd i n).used j = zbd.used j := by
  by_cases hj : j = i
  · subst hj; simp [advance, Zbd.used]
  · simp [advance, Zbd.used, hj]

theorem clear_used {zbd : Zbd} {es : List LevelExtent} (h : ∀ i, heldIn i es ≤ (zbd.used i : Int))
    (i : ZoneId) : ((clear zbd es).used i : Int) = zbd.used i - heldIn i es := by
  have hle : ∀ i, spaceIn i (es.map (·.toZoneExtent)) ≤ zbd.used i := by
    intro i
    have := h i
    rw [heldIn_eq_spaceIn] at this
    exact_mod_cast this
  have := hle i
  rw [clear, (Zbd.clearExtents_used hle).1, heldIn_eq_spaceIn]
  omega

theorem push_used (s : LevelFs) (r : Ref) (f : LevelFile) (es : List LevelExtent) (i : ZoneId) :
    ((s.push r f es).zbd.used i : Int) = s.zbd.used i + heldIn i es := by
  rw [push, Zbd.countExtents_used, heldIn_eq_spaceIn]
  omega

@[simp] theorem push_files_self (s : LevelFs) (r : Ref) (f : LevelFile) (es : List LevelExtent) :
    (s.push r f es).files r = { f with extents := f.extents ++ es } := by
  simp [push, setFile]

theorem push_files_of_ne (s : LevelFs) {r r' : Ref} (h : r' ≠ r) (f : LevelFile)
    (es : List LevelExtent) : (s.push r f es).files r' = s.files r' := by
  simp [push, setFile, h]

/-- Changing other fields of a file leaves all extents. -/
theorem setFile_extents (s : LevelFs) (r : Ref) (f : LevelFile)
    (hf : f.extents = (s.files r).extents)
    (r' : Ref) : ((s.setFile r f).files r').extents = (s.files r').extents := by
  by_cases hr : r' = r
  · subst hr; simp [setFile, hf]
  · simp [setFile, hr]

/-- Getting a zone leaves all extents. -/
theorem allocateNewZone_extents (s : LevelFs) (r : Ref) (i : ZoneId) (empty : Bool) (level : Int)
    (r' : Ref) : ((s.allocateNewZone r i empty level).files r').extents = (s.files r').extents := by
  by_cases hr : r' = r
  · subst hr; simp [allocateNewZone, allocated, setFile]
  · simp [allocateNewZone, allocated, setFile, hr]

theorem migrateExtent_extents (s : LevelFs) (m : Migration) (k : Nat) (i : ZoneId) (empty : Bool)
    (level : Int) (written : Nat) (present : Bool) (r : Ref) :
    ((s.migrateExtent m k i empty level written present).files r).extents =
    (s.files r).extents := by
  unfold migrateExtent
  split
  · rfl
  · have := setFile_extents s m.file { s.files m.file with level := level } rfl r
    cases present <;> exact this

theorem mergeUpdate_extents (s : LevelFs) (r update : Ref) (replace : Bool) :
    ((s.mergeUpdate r update replace).files r).extents =
    (if replace then [] else (s.files r).extents) ++
      (s.files update).extents.map fun e ↦ { e with level := -1 } := by
  cases replace <;> simp [mergeUpdate]

namespace Held

/-- A file gets more extents. -/
theorem push (h : Held s) (hr : s.Settled r) {u : LevelFs} {f : LevelFile} (es : List LevelExtent)
    (hf : f.extents = (s.files r).extents) (hl : u.live = s.live) (hg : u.gc = s.gc)
    (hfiles : u.files = s.files) (hu : ∀ i, u.zbd.used i = s.zbd.used i) :
    Held (u.push r f es) := by
  refine h.set hr hl hg (fun r' hne ↦ ?_) fun i ↦ ?_
  · rw [push_files_of_ne u hne, hfiles]
  · rw [push_used, push_files_self, hu, heldIn_append, hf]
    omega

theorem allocated (h : Held s) (i : ZoneId) (empty : Bool) (level : Int) :
    Held (s.allocated r i empty level) := h.congr rfl rfl (setFile_extents s r _ rfl) fun _ ↦ rfl

end Held

/-! ## Migrations -/

theorem forall₂_set {α β : Type} {R : α → β → Prop} {xs : List α} {ys : List β}
    (h : List.Forall₂ R xs ys) {k : Nat} {y : β} (hk : ∀ x, xs[k]? = some x → R x y) :
    List.Forall₂ R xs (ys.set k y) := by
  induction h generalizing k with
  | nil => exact .nil
  | cons hxy h ih =>
      cases k with
      | zero => exact .cons (hk _ rfl) h
      | succ k => exact .cons hxy (ih fun x hx ↦ hk x (by simpa using hx))

theorem movedIn_set_le (i : ZoneId) (ps : List (LevelExtent × Bool)) (k : Nat) (e : LevelExtent) :
    movedIn i (ps.set k (e, true)) ≤ movedIn i ps + if e.zone = i then (e.length : Int) else 0 := by
  induction ps generalizing k with
  | nil =>
      rw [List.set_nil]
      split <;> simp
  | cons p ps ih =>
      cases k with
      | zero =>
          rw [List.set_cons_zero, movedIn_cons, movedIn_cons]
          simp only [true_and]
          split <;> split <;> omega
      | succ k =>
          have := ih k
          rw [List.set_cons_succ, movedIn_cons, movedIn_cons]
          omega

theorem copies_newExtentList (f : LevelFile) : List.Forall₂ Copies f.extents f.newExtentList := by
  rw [LevelFile.newExtentList, List.forall₂_map_right_iff, List.forall₂_same]
  exact fun e _ ↦ ⟨rfl, fun _ ↦ ⟨rfl, rfl⟩⟩

theorem movedIn_newExtentList (f : LevelFile) (i : ZoneId) : movedIn i f.newExtentList = 0 := by
  rw [LevelFile.newExtentList]
  induction f.extents with
  | nil => rfl
  | cons e es ih => simpa using ih

theorem Copies.relabel {f : LevelFile} {ps : List (LevelExtent × Bool)} (level : Int)
    (h : List.Forall₂ Copies f.extents ps) :
    List.Forall₂ Copies (f.extents.map fun e ↦ { e with level := level }) ps := by
  rw [List.forall₂_map_left_iff]
  exact h.imp fun _ _ h ↦ h

/-- What is given back at the end of a migration is not more than what the old extents have
taken and the moved ones take beside the new list. -/
theorem heldIn_changed_le {es : List LevelExtent} {ps : List (LevelExtent × Bool)}
    (h : List.Forall₂ Copies es ps) (i : ZoneId) :
    heldIn i (ps.map Prod.fst) + heldIn i (changed es ps) ≤ heldIn i es + movedIn i ps ∧
      heldIn i (ps.map Prod.fst) ≤ heldIn i es + movedIn i ps ∧
      heldIn i (changed es ps) ≤ heldIn i es := by
  induction h with
  | nil => simp [changed]
  | @cons e p es ps hep h ih =>
      obtain ⟨h₁, h₂, h₃⟩ := ih
      obtain ⟨hlen, hplace⟩ := hep
      have hchanged : heldIn i (changed (e :: es) (p :: ps)) =
          (if e.start ≠ p.1.start ∧ e.zone = i then (e.length : Int) else 0) + heldIn i
          (changed es ps) := by
        by_cases hs : e.start = p.1.start <;> simp [changed, hs]
      rw [hchanged, List.map_cons, heldIn_cons, heldIn_cons, movedIn_cons, hlen]
      have hback : (if e.start ≠ p.1.start ∧ e.zone = i then (e.length : Int) else 0) ≤
          if e.zone = i then (e.length : Int) else 0 := by
        by_cases hz : e.zone = i
        · rw [if_pos hz]
          split <;> omega
        · rw [if_neg hz, if_neg fun h ↦ hz h.2]
      cases hp : p.2 with
      | true =>
          have hold : 0 ≤ if e.zone = i then (e.length : Int) else 0 := by split <;> omega
          have hnew : 0 ≤ if p.1.zone = i then (e.length : Int) else 0 := by split <;> omega
          simp only [true_and]
          omega
      | false =>
          obtain ⟨hz, hs⟩ := hplace hp
          simp only [hz, hs, ne_eq, not_true_eq_false, false_and, if_false, Bool.false_eq_true]
          split <;> omega

namespace Held

theorem migrateExtent (h : Held s) {m : Migration} (hm : m ∈ s.gc) {k : Nat}
    (i : ZoneId) (empty : Bool) (level : Int) (written : Nat) (present : Bool) :
    Held (s.migrateExtent m k i empty level written present) := by
  obtain ⟨hlive, hcopies⟩ := h.gc m hm
  have halloc := h.allocated (r := m.file) i empty level
  unfold LevelFs.migrateExtent
  split
  · exact h
  · rename_i e b hk
    dsimp only
    cases present with
    | false => exact halloc.congr rfl rfl (fun _ ↦ rfl) fun j ↦ advance_used _ _ _ _
    | true =>
        refine ⟨fun j ↦ ?_, fun m' hm' ↦ ?_⟩
        · have hused := halloc.used j
          have hmove := movedIn_set_le j m.extents k
            { e with start := (s.zbd.zones i).wp + if (s.files m.file).isSparse then
              SPARSE_HEADER_SIZE else 0, zone := i }
          have hgc : (s.allocated m.file i empty level).gc = some m := hm
          simp only [pending, hgc] at hused
          simp only [pending, if_true, Zbd.addUsed_used, advance_used]
          push_cast
          dsimp only at hmove ⊢
          omega
        · obtain rfl : _ = m' := Option.some.inj hm'
          obtain ⟨hlive', hcopies'⟩ := halloc.gc m hm
          refine ⟨hlive', forall₂_set hcopies' fun e₀ he₀ ↦ ⟨?_, by simp⟩⟩
          have hget := List.forall₂_iff_get.mp hcopies'
          have hlt : k < ((s.allocated m.file i empty level).files m.file).extents.length :=
            (List.getElem?_eq_some_iff.mp he₀).1
          have hlt' : k < m.extents.length := (List.getElem?_eq_some_iff.mp hk).1
          have := (hget.2 k hlt hlt').1
          rw [List.get_eq_getElem, List.get_eq_getElem, (List.getElem?_eq_some_iff.mp he₀).2,
            (List.getElem?_eq_some_iff.mp hk).2] at this
          exact this

theorem migrateEnd (h : Held s) {m : Migration} (hm : m ∈ s.gc) (persisted : Bool) :
    Held (s.migrateEnd m persisted) where
  used := by
    intro i
    obtain ⟨hlive, hcopies⟩ := h.gc m hm
    have hgc : s.gc = some m := hm
    obtain ⟨hboth, hnew, -⟩ := heldIn_changed_le hcopies i
    have hchanged : ∀ i, heldIn i (changed (s.files m.file).extents m.extents) ≤
        (s.zbd.used i : Int) :=
      fun i ↦ ((heldIn_changed_le hcopies i).2.2).trans (h.heldIn_le hlive i)
    have hsum := Pool.sum_of_eq_off (s := s.live) (f := fun r ↦ heldIn i (s.files r).extents)
      (g := fun r ↦ heldIn i ((s.migrateEnd m persisted).files r).extents) hlive
      fun r' _ hne ↦ by simp [LevelFs.migrateEnd, setFile, hne]
    have hself : ((s.migrateEnd m persisted).files m.file).extents = m.extents.map Prod.fst := by
      simp [LevelFs.migrateEnd, setFile]
    have hused := h.used i
    simp only [pending, hgc] at hused
    have hclear : (((s.migrateEnd m persisted).zbd.used i : Nat) : Int) = s.zbd.used i -
        if persisted then heldIn i (changed (s.files m.file).extents m.extents) else 0 := by
      cases persisted with
      | true => exact clear_used hchanged i
      | false => exact (Int.sub_zero _).symm
    have hnone : (s.migrateEnd m persisted).pending i = 0 := rfl
    rw [hnone, hclear]
    show ∑ r ∈ s.live, _ + _ ≤ _
    rw [hsum]
    simp only [hself]
    split <;> omega
  gc := by
    intro m' hm'
    cases hm'

/-- A new file has no extents. -/
theorem newFile (h : Held s) (hr : r ∉ s.live) : Held (s.effect (.newFile r)) := by
  have hoff : ∀ r' ∈ s.live, ((s.effect (.newFile r)).files r').extents =
      (s.files r').extents := by
    intro r' hr'
    have hne : r' ≠ r := fun he ↦ hr (he ▸ hr')
    simp [LevelFs.effect, setFile, hne]
  refine ⟨fun i ↦ ?_, fun m hm ↦ ?_⟩
  · have hself : ((s.effect (.newFile r)).files r).extents = [] := by
      simp [LevelFs.effect, setFile]
    show ∑ r' ∈ insert r s.live, _ + s.pending i ≤ (s.zbd.used i : Int)
    rw [sum_insert hr, hself, heldIn_nil, Int.zero_add,
      sum_congr rfl fun r' hr' ↦ by rw [hoff r' hr']]
    exact h.used i
  · obtain ⟨hlive, hcopies⟩ := h.gc m hm
    rw [hoff _ hlive]
    exact ⟨mem_insert_of_mem hlive, hcopies⟩

/-- The extents of a file change their level. -/
theorem setLevel (h : Held s) (r : Ref) (level : Int) : Held (s.effect (.setLevel r level)) := by
  have hsame : ∀ r' i, heldIn i ((s.effect (.setLevel r level)).files r').extents =
      heldIn i (s.files r').extents := by
    intro r' i
    by_cases hr : r' = r
    · subst hr; simp [LevelFs.effect, setFile, heldIn_relabel]
    · simp [LevelFs.effect, setFile, hr]
  refine ⟨fun i ↦ ?_, fun m hm ↦ ?_⟩
  · simp only [hsame]
    exact h.used i
  · obtain ⟨hlive, hcopies⟩ := h.gc m hm
    refine ⟨hlive, ?_⟩
    by_cases hr : m.file = r
    · subst hr
      simpa [LevelFs.effect, setFile] using Copies.relabel level hcopies
    · simpa [LevelFs.effect, setFile, hr] using hcopies

/-- A migration begins with the extents of the file. -/
theorem migrateBegin (h : Held s) (hr : r ∈ s.live) (hnone : s.gc = none) :
    Held (s.effect (.migrateBegin r)) := by
  have hsame : ∀ r', ((s.effect (.migrateBegin r)).files r').extents = (s.files r').extents :=
    setFile_extents s r _ rfl
  refine ⟨fun i ↦ ?_, fun m hm ↦ ?_⟩
  · have hpending : (s.effect (.migrateBegin r)).pending i = 0 := movedIn_newExtentList _ _
    have hold := h.used i
    simp only [pending, hnone] at hold
    simp only [hpending, hsame]
    exact hold
  · obtain rfl := Option.some.inj hm
    refine ⟨hr, ?_⟩
    rw [hsame]
    exact copies_newExtentList _

/-- A file gives its extents back. -/
theorem destroy (h : Held s) (hr : s.Settled r) : Held (s.effect (.destroy r)) := by
  obtain ⟨hr, hgc⟩ := hr
  have hoff : ∀ r' ∈ s.live.erase r, ((s.effect (.destroy r)).files r').extents =
      (s.files r').extents := by
    intro r' hr'
    simp [LevelFs.effect, setFile, ne_of_mem_erase hr']
  refine ⟨fun i ↦ ?_, fun m hm ↦ ?_⟩
  · have hclear := clear_used (fun i ↦ h.heldIn_le hr i) i
    have hsum := add_sum_erase s.live (fun r ↦ heldIn i (s.files r).extents) hr
    have hold := h.used i
    have hpending : (s.effect (.destroy r)).pending i = s.pending i := rfl
    rw [hpending]
    show ∑ r' ∈ s.live.erase r, _ + _ ≤ ((clear s.zbd (s.files r).extents).used i : Int)
    rw [hclear, sum_congr rfl fun r' hr' ↦ by rw [hoff r' hr']]
    omega
  · obtain ⟨hlive, hcopies⟩ := h.gc m hm
    have hmem := mem_erase.mpr ⟨hgc m hm, hlive⟩
    rw [hoff _ hmem]
    exact ⟨hmem, hcopies⟩

/-- A reset counts nothing. -/
theorem reset (h : Held s) (i : ZoneId) (res : ResetRes) : Held (s.effect (.reset i res)) := by
  have hused : ∀ j, (s.zbd.reset i res).1.used j = s.zbd.used j := by
    intro j
    by_cases hj : j = i
    · subst hj; cases res with
      | failed erased => cases erased <;> rfl
      | _ => simp [Zbd.reset, Zbd.used]
    · cases res with
      | failed erased => cases erased <;> rfl
      | _ => simp [Zbd.reset, Zbd.used, hj]
  cases res <;> exact h.congr rfl rfl (fun _ ↦ rfl) hused

/-- What the functions do keeps the counters of the zones from falling behind. -/
theorem effect (h : Held s) (hen : s.Enabled a) : Held (s.effect a) := by
  cases a with
  | newFile r => exact h.newFile hen
  | openForWr r isSparse | closeActiveZone r | closeWR r =>
      exact h.congr rfl rfl (setFile_extents s r _ rfl) fun _ ↦ rfl
  | decode r fileSize extentStart isSparse es =>
      exact h.push hen _ rfl rfl rfl rfl fun _ ↦ rfl
  | mergeUpdate r update replace =>
      obtain ⟨hr, -, -⟩ := hen
      show Held (s.mergeUpdate r update replace)
      cases replace with
      | false => exact h.push hr _ rfl rfl rfl rfl fun _ ↦ rfl
      | true =>
          refine h.set hr rfl rfl (fun r' hne ↦ ?_) fun i ↦ ?_
          · exact congrArg LevelFile.extents (push_files_of_ne _ hne _ _)
          · have hused : (((s.mergeUpdate r update true).zbd.used i : Nat) : Int) = s.zbd.used i -
                heldIn i (s.files r).extents + heldIn i ((s.files update).extents.map fun e ↦
                  { e with level := -1 }) := by
              rw [LevelFs.mergeUpdate, if_pos rfl, push_used, clear_used fun i ↦ h.heldIn_le hr.1 i]
            rw [hused, mergeUpdate_extents, if_pos rfl, List.nil_append]
            omega
  | recover r i es => exact h.push hen _ rfl rfl rfl rfl fun _ ↦ rfl
  | allocate r i empty level =>
      exact h.congr rfl rfl (s.allocateNewZone_extents r i empty level) fun _ ↦ rfl
  | append r written ok =>
      rw [effect]
      split
      · exact h
      · exact h.congr rfl rfl (setFile_extents s r _ rfl) fun j ↦ advance_used _ _ _ _
  | pushExtent r =>
      show Held (s.pushExtent r)
      unfold LevelFs.pushExtent
      dsimp only
      split
      · exact h
      · split
        · exact h
        · exact h.push hen.1 _ rfl rfl rfl rfl fun _ ↦ rfl
  | appendChunk r header wr_size =>
      rw [effect]
      split
      · exact h
      · exact h.push hen.1.1 _ rfl rfl rfl rfl fun j ↦ advance_used _ _ _ _
  | setLevel r level => exact h.setLevel r level
  | migrateBegin r => exact h.migrateBegin hen.1 hen.2.1
  | migrateExtent k i empty level written present =>
      obtain ⟨m, hm, -⟩ := hen
      rw [Option.mem_def] at hm
      simp only [LevelFs.effect, hm]
      exact h.migrateExtent hm i empty level written present
  | migrateEnd persisted =>
      obtain ⟨m, hm⟩ := Option.isSome_iff_exists.mp hen
      simp only [LevelFs.effect, hm]
      exact h.migrateEnd hm persisted
  | destroy r => exact h.destroy hen
  | reset i res => exact h.reset i res
  | finish i =>
      refine h.congr rfl rfl (fun _ ↦ rfl) fun j ↦ ?_
      by_cases hj : j = i
      · subst hj; simp [LevelFs.effect, Zbd.finish, Zbd.used]
      · simp [LevelFs.effect, Zbd.finish, Zbd.used, hj]

end Held

/-! ## Byte counts -/

/-- The bytes at level `l` in zone `i` that live extents take. -/
def liveBytes (s : LevelFs) (i : ZoneId) (l : Int) : Int :=
  ∑ r ∈ s.live, bytesIn i l (s.files r).extents

/-- No sum of extents at a level exceeds an `int`. -/
def SumsFit (s : LevelFs) : Prop := ∀ i l, 0 ≤ l → s.liveBytes i l < 2 ^ 31

/-- The functions that do not count have nothing to count: an inline segment and a recovered
extent belong to a file without a level, and the extents of a migrated file keep their zones
and levels, or have no level. -/
def Counts (s : LevelFs) : LevelAct → Prop
  | .appendChunk r header wr_size => (s.files r).level < 0 ∨ sub32 wr_size header = 0
  | .recover r _ es => (s.files r).level < 0 ∨ ∀ e ∈ es, e.2 = 0
  | .migrateEnd _ => ∀ m ∈ s.gc, ∀ p ∈ (s.files m.file).extents.zip m.extents,
      p.1.length = 0 ∨ (p.1.level < 0 ∧ p.2.1.level < 0) ∨
        (p.2.1.zone = p.1.zone ∧ p.2.1.level = p.1.level)
  | _ => True

instance (s : LevelFs) (a : LevelAct) : Decidable (s.Counts a) := by
  apply a.casesOn (motive := fun a ↦ Decidable (s.Counts a)) <;> intros <;> unfold Counts
    <;> infer_instance

theorem liveBytes_nonneg (s : LevelFs) (i : ZoneId) (l : Int) : 0 ≤ s.liveBytes i l :=
  sum_nonneg fun _ _ ↦ bytesIn_nonneg i l _

theorem bytesIn_le_liveBytes (hr : r ∈ s.live) (i : ZoneId) (l : Int) :
    bytesIn i l (s.files r).extents ≤ s.liveBytes i l :=
  single_le_sum (f := fun r ↦ bytesIn i l (s.files r).extents) (fun _ _ ↦ bytesIn_nonneg i l _) hr

/-- An extent with a level has a length that fits into an `int`. -/
theorem SumsFit.length_lt (h : s.SumsFit) (hr : r ∈ s.live) {e : LevelExtent}
    (he : e ∈ (s.files r).extents) (hl : 0 ≤ e.level) : (e.length : Int) < 2 ^ 31 := by
  have h₁ := length_le_bytesIn he
  have h₂ := bytesIn_le_liveBytes hr e.zone e.level
  have h₃ := h e.zone e.level hl
  omega

/-- The extents of one file have changed. -/
theorem liveBytes_of_eq_off (hr : r ∈ s.live) (hl : t.live = s.live)
    (hf : ∀ r', r' ≠ r → (t.files r').extents = (s.files r').extents) (i : ZoneId) (l : Int) :
    t.liveBytes i l = s.liveBytes i l +
      (bytesIn i l (t.files r).extents - bytesIn i l (s.files r).extents) := by
  rw [liveBytes, liveBytes, hl]
  exact Pool.sum_of_eq_off (f := fun r ↦ bytesIn i l (s.files r).extents)
    (g := fun r ↦ bytesIn i l (t.files r).extents) hr fun r' _ hne ↦ by simp only [hf r' hne]

/-- The calls account for the difference between two states, and on the way no count leaves
the range of an `int` from zero on. -/
structure Balanced (s : LevelFs) (cs : List LevelCall) (t : LevelFs) : Prop where
  sum : ∀ i l, 0 ≤ l → t.liveBytes i l = s.liveBytes i l + LevelCall.moved i l cs
  fit : ∀ pre, pre <+: cs → ∀ i l, 0 ≤ l →
    0 ≤ s.liveBytes i l + LevelCall.moved i l pre ∧
    s.liveBytes i l + LevelCall.moved i l pre < 2 ^ 31

namespace Balanced

theorem nil (hs : s.SumsFit) (h : ∀ i l, 0 ≤ l → t.liveBytes i l = s.liveBytes i l) :
    Balanced s [] t where
  sum := by
    intro i l hl
    rw [h i l hl, LevelCall.moved_nil, Int.add_zero]
  fit := by
    intro pre hpre i l hl
    rw [List.prefix_nil.mp hpre, LevelCall.moved_nil, Int.add_zero]
    exact ⟨s.liveBytes_nonneg i l, hs i l hl⟩

/-- All files have the extents they had, or others that count for the same at each level. -/
theorem of_eq (hs : s.SumsFit) (hl : t.live = s.live)
    (h : ∀ r ∈ s.live, ∀ i l, 0 ≤ l →
      bytesIn i l (t.files r).extents = bytesIn i l (s.files r).extents) : Balanced s [] t := by
  refine .nil hs fun i l hl' ↦ ?_
  rw [liveBytes, liveBytes, hl]
  exact sum_congr rfl fun r hr ↦ h r hr i l hl'

end Balanced

/-! ### The calls of `ClearExtents` -/

theorem moved_clear {es : List LevelExtent}
    (hlen : ∀ e ∈ es, 0 ≤ e.level → (e.length : Int) < 2 ^ 31) (i : ZoneId) (hl : 0 ≤ l) :
    LevelCall.moved i l (es.map fun e ↦ ⟨e.zone, e.level, toInt (-e.length)⟩) =
    -bytesIn i l es := by
  induction es with
  | nil => rfl
  | cons e es ih =>
      rw [List.map_cons, LevelCall.moved_cons, bytesIn_cons, ih fun e' he ↦ hlen e' (by simp [he])]
      dsimp only
      split
      · rename_i h
        have := hlen e (by simp) (h.2 ▸ hl)
        rw [toInt_of_lt (by omega) (by omega)]
        omega
      · omega

theorem bytesIn_prefix_le {es es' : List LevelExtent} (h : es <+: es') (i : ZoneId) (l : Int) :
    bytesIn i l es ≤ bytesIn i l es' := by
  obtain ⟨es'', rfl⟩ := h
  have := bytesIn_nonneg i l es''
  rw [bytesIn_append]
  omega

/-- Dropping the extents of a file is what the calls of `ClearExtents` count. -/
theorem Balanced.clear (hs : s.SumsFit) (hr : r ∈ s.live) (hd : s.dynamic = true)
    (h : ∀ i l, 0 ≤ l → t.liveBytes i l = s.liveBytes i l - bytesIn i l (s.files r).extents) :
    Balanced s (s.clearCalls (s.files r).extents) t := by
  have hlen : ∀ e ∈ (s.files r).extents, 0 ≤ e.level → (e.length : Int) < 2 ^ 31 :=
    fun e he hl ↦ hs.length_lt hr he hl
  rw [clearCalls, if_pos hd]
  constructor
  · intro i l hl
    rw [h i l hl, moved_clear hlen i hl]
    omega
  · intro pre hpre i l hl
    obtain ⟨es, hes, rfl⟩ := List.prefix_map_iff.mp hpre
    rw [moved_clear (fun e he ↦ hlen e (hes.mem he)) i hl]
    have h₁ := bytesIn_prefix_le hes i l
    have h₂ := bytesIn_le_liveBytes hr i l
    have h₃ := bytesIn_nonneg i l es
    have h₄ := hs i l hl
    omega

/-! ### The calls of `SetLevel` -/

theorem bytesIn_relabel (i : ZoneId) (l level : Int) (es : List LevelExtent) :
    bytesIn i l (es.map fun e ↦ { e with level := level }) = if level = l then heldIn i es
    else 0 := by
  induction es with
  | nil => simp
  | cons e es ih =>
      rw [List.map_cons, bytesIn_cons, ih, heldIn_cons]
      by_cases hl : level = l <;> simp [hl]

theorem moved_setLevel {level : Int} {es : List LevelExtent}
    (hlen : ∀ e ∈ es, (e.length : Int) < 2 ^ 31) (i : ZoneId) (l : Int) :
    LevelCall.moved i l (setLevelCalls level es) =
      (if level = l then heldIn i es else 0) - bytesIn i l es := by
  induction es with
  | nil => simp [setLevelCalls]
  | cons e es ih =>
      have he := hlen e (by simp)
      have ih := ih fun e' he' ↦ hlen e' (by simp [he'])
      rw [setLevelCalls] at ih ⊢
      rw [List.flatMap_cons, LevelCall.moved_append, ih, bytesIn_cons, heldIn_cons]
      simp only [LevelCall.moved_cons, LevelCall.moved_nil, toInt_of_lt (by omega) he,
        toInt_of_lt (by omega : -(2 ^ 31) ≤ -(e.length : Int)) (by omega)]
      by_cases hz : e.zone = i <;> by_cases hl : level = l <;> simp [hz, hl] <;> split <;> omega

/-- On the way the counts only fall, except the one of the new level, which grows up to what
it is in the end. -/
theorem moved_prefix_setLevel {level : Int} {es : List LevelExtent}
    (hlen : ∀ e ∈ es, (e.length : Int) < 2 ^ 31) {pre : List LevelCall}
    (hpre : pre <+: setLevelCalls level es) (i : ZoneId) (l : Int) :
    -bytesIn i l es ≤ LevelCall.moved i l pre ∧
      LevelCall.moved i l pre ≤ if level = l then heldIn i es - bytesIn i l es else 0 := by
  induction es generalizing pre with
  | nil =>
      rw [setLevelCalls, List.flatMap_nil, List.prefix_nil] at hpre
      simp [hpre]
  | cons e es ih =>
      have he := hlen e (by simp)
      have hes := bytesIn_nonneg i l es
      have hle := bytesIn_le_heldIn i l es
      have hsub : toInt (-(e.length : Int)) = -(e.length : Int) := toInt_of_lt (by omega) (by omega)
      have hadd : toInt (e.length : Int) = e.length := toInt_of_lt (by omega) he
      rw [setLevelCalls, List.flatMap_cons, List.cons_append, List.cons_append,
        List.nil_append] at hpre
      -- the extent is untouched, only taken from its old level, or relabelled
      rcases List.prefix_cons_iff.mp hpre with rfl | ⟨pre, rfl, hpair⟩
      · rw [LevelCall.moved_nil, bytesIn_cons, heldIn_cons]
        by_cases hz : e.zone = i <;> by_cases hl : e.level = l <;> by_cases hlevel : level = l <;>
          simp [hz, hl, hlevel] <;> omega
      · rcases List.prefix_cons_iff.mp hpair with rfl | ⟨pre, rfl, hrest⟩
        · simp only [LevelCall.moved_cons, LevelCall.moved_nil, bytesIn_cons, heldIn_cons, hsub]
          by_cases hz : e.zone = i <;> by_cases hl : e.level = l <;> by_cases hlevel : level = l <;>
            simp [hz, hl, hlevel] <;> omega
        · obtain ⟨h₁, h₂⟩ := ih (fun e' he' ↦ hlen e' (by simp [he'])) hrest
          simp only [LevelCall.moved_cons, bytesIn_cons, heldIn_cons, hsub, hadd]
          by_cases hz : e.zone = i <;> by_cases hl : e.level = l <;> by_cases hlevel : level = l <;>
            simp only [hz, hl, hlevel, and_self, and_true, and_false, if_true, if_false]
            at h₂ ⊢ <;> omega

/-- Relabelling the extents of a file is what the calls of `SetLevel` count. -/
theorem Balanced.setLevel (hs : s.SumsFit) {level : Int}
    (hadm : s.Admits (.setLevel r level)) (hr : r ∈ s.live)
    (ht : (s.effect (.setLevel r level)).SumsFit) :
    Balanced s (s.calls (.setLevel r level)) (s.effect (.setLevel r level)) := by
  have hlevel : ∀ e ∈ (s.files r).extents, 0 ≤ e.level := by
    intro e he
    have hmem : ⟨e.zone, e.level, toInt (-e.length)⟩ ∈ s.calls (.setLevel r level) :=
      List.mem_flatMap.mpr ⟨e, he, by simp⟩
    obtain ⟨pre, post, hcs⟩ := List.append_of_mem hmem
    exact (hadm pre _ post hcs).1
  have hlen : ∀ e ∈ (s.files r).extents, (e.length : Int) < 2 ^ 31 :=
    fun e he ↦ hs.length_lt hr he (hlevel e he)
  have hself : ((s.effect (.setLevel r level)).files r).extents =
      (s.files r).extents.map fun e ↦ { e with level := level } := by simp [effect, setFile]
  have hsum : ∀ i l, (s.effect (.setLevel r level)).liveBytes i l = s.liveBytes i l +
      ((if level = l then heldIn i (s.files r).extents else 0) - bytesIn i l
        (s.files r).extents) := by
    intro i l
    rw [liveBytes_of_eq_off (t := s.effect (.setLevel r level)) hr rfl
      (fun r' hne ↦ by simp [effect, setFile, hne]) i l, hself, bytesIn_relabel]
  constructor
  · intro i l _
    rw [hsum, calls, moved_setLevel hlen]
  · intro pre hpre i l hl
    obtain ⟨h₁, h₂⟩ := moved_prefix_setLevel hlen hpre i l
    have h₃ := bytesIn_le_liveBytes hr i l
    have h₄ := ht i l hl
    have h₅ := hs i l hl
    rw [hsum] at h₄
    by_cases hll : level = l
    · rw [if_pos hll] at h₂ h₄
      omega
    · rw [if_neg hll] at h₂
      omega

/-! ### The other functions -/

/-- A file gets more extents. -/
theorem liveBytes_push (hr : r ∈ s.live) {u : LevelFs} {f : LevelFile} (es : List LevelExtent)
    (hf : f.extents = (s.files r).extents) (hl : u.live = s.live) (hfiles : u.files = s.files)
    (i : ZoneId) (l : Int) : (u.push r f es).liveBytes i l = s.liveBytes i l + bytesIn i l es := by
  rw [liveBytes_of_eq_off hr (t := u.push r f es) hl
    (fun r' hne ↦ by rw [push_files_of_ne u hne, hfiles]) i l, push_files_self, bytesIn_append, hf]
  omega

/-- `PushExtent` pushes nothing, or an extent that it counts. -/
theorem pushExtent_eq (s : LevelFs) (r : Ref) :
    (s.pushExtent r = s ∧ pushCalls (s.files r) = []) ∨
      ∃ i f, f.extents = (s.files r).extents ∧ s.pushExtent r = s.push r f [(s.files r).pushed i] ∧
        pushCalls (s.files r) = [⟨i, (s.files r).level, toInt ((s.files r).pushed i).length⟩] := by
  unfold pushExtent pushCalls
  cases hactive : (s.files r).activeZone with
  | none => exact .inl ⟨by simp only [hactive], rfl⟩
  | some i =>
      by_cases hlen : (s.files r).fileSize - (s.files r).extentFilepos = 0
      · exact .inl ⟨by simp only [hactive, if_pos hlen], by simp only [if_pos hlen]⟩
      · refine .inr ⟨i, { s.files r with
          extentStart := (s.zbd.zones i).wp, extentFilepos := (s.files r).fileSize }, rfl, ?_, ?_⟩
        · simp only [hactive, if_neg hlen]
        · simp only [if_neg hlen]

/-- The extent that `PushExtent` pushes is what its call counts. -/
theorem Balanced.pushExtent (hs : s.SumsFit) (hadm : s.Admits (.pushExtent r)) (hr : r ∈ s.live)
    (ht : (s.effect (.pushExtent r)).SumsFit) :
    Balanced s (s.calls (.pushExtent r)) (s.effect (.pushExtent r)) := by
  change (s.pushExtent r).SumsFit at ht
  change LevelCall.Admitted s.dynamic s.labels (pushCalls (s.files r)) at hadm
  change Balanced s (pushCalls (s.files r)) (s.pushExtent r)
  rcases s.pushExtent_eq r with ⟨heq, hcalls⟩ | ⟨i, f, hf, heq, hcalls⟩
  · rw [heq, hcalls]
    exact .nil hs fun _ _ _ ↦ rfl
  · rw [heq] at ht ⊢
    rw [hcalls] at hadm ⊢
    have hlevel : 0 ≤ (s.files r).level := (hadm [] _ [] rfl).1
    have hsum := liveBytes_push hr [(s.files r).pushed i] hf rfl rfl
    have hfit : (((s.files r).pushed i).length : Int) < 2 ^ 31 := by
      have h₁ := ht i (s.files r).level hlevel
      have h₂ := s.liveBytes_nonneg i (s.files r).level
      rw [hsum, bytesIn_cons, if_pos ⟨rfl, rfl⟩, bytesIn_nil] at h₁
      omega
    have hmoved : ∀ j l, LevelCall.moved j l
        [⟨i, (s.files r).level, toInt ((s.files r).pushed i).length⟩] =
          bytesIn j l [(s.files r).pushed i] := by
      intro j l
      rw [LevelCall.moved_cons, LevelCall.moved_nil, bytesIn_cons, bytesIn_nil,
        toInt_of_lt (by omega) hfit]
      rfl
    constructor
    · intro j l _
      rw [hsum, hmoved]
    · intro pre hpre j l hl
      have h₁ := s.liveBytes_nonneg j l
      have h₂ := hs j l hl
      have h₃ := ht j l hl
      rw [hsum] at h₃
      rcases List.prefix_cons_iff.mp hpre with rfl | ⟨pre, rfl, hrest⟩
      · rw [LevelCall.moved_nil]
        omega
      · obtain rfl := List.prefix_nil.mp hrest
        have h₄ := bytesIn_nonneg j l [(s.files r).pushed i]
        rw [hmoved]
        omega

theorem bytesIn_migrated {es : List LevelExtent} {ps : List (LevelExtent × Bool)}
    (h : List.Forall₂ Copies es ps)
    (hc : ∀ p ∈ es.zip ps, p.1.length = 0 ∨ (p.1.level < 0 ∧ p.2.1.level < 0) ∨
      (p.2.1.zone = p.1.zone ∧ p.2.1.level = p.1.level)) (i : ZoneId) (hl : 0 ≤ l) :
    bytesIn i l (ps.map Prod.fst) = bytesIn i l es := by
  induction h with
  | nil => rfl
  | @cons e p es ps hep h ih =>
      rw [List.map_cons, bytesIn_cons, bytesIn_cons, ih fun q hq ↦ hc q (by simp [hq]), hep.1]
      rcases hc (e, p) (by simp) with hlen | ⟨h₁, h₂⟩ | ⟨h₁, h₂⟩
      · simp only at hlen
        simp [hlen]
      · simp only at h₁ h₂
        rw [if_neg (by omega), if_neg (by omega)]
      · simp only at h₁ h₂
        rw [h₁, h₂]

/-- Each function makes the calls that go with what it does to the extents. -/
theorem balanced_effect (h : Held s) (hs : s.SumsFit) (hd : s.dynamic = true) (hen : s.Enabled a)
    (hadm : s.Admits a) (hc : s.Counts a) (ht : (s.effect a).SumsFit) :
    Balanced s (s.calls a) (s.effect a) := by
  have hpush : ∀ {r : Ref} {u : LevelFs} {f : LevelFile} (es : List LevelExtent), r ∈ s.live →
      f.extents = (s.files r).extents → u.live = s.live → u.files = s.files →
      (∀ e ∈ es, e.level < 0 ∨ e.length = 0) → Balanced s [] (u.push r f es) := by
    intro r u f es hr hf hlive hfiles hes
    refine .nil hs fun i l hl ↦ ?_
    rw [liveBytes_push hr es hf hlive hfiles, bytesIn_of_neg hl hes, Int.add_zero]
  have hsame : ∀ {t : LevelFs}, t.live = s.live → (∀ r, (t.files r).extents = (s.files r).extents) →
      Balanced s [] t := fun hlive hf ↦ .of_eq hs hlive fun r _ i l _ ↦ by rw [hf r]
  cases a with
  | newFile r =>
      have hr : r ∉ s.live := hen
      refine .nil hs fun i l hl ↦ ?_
      have hself : ((s.effect (.newFile r)).files r).extents = [] := by simp [effect, setFile]
      show ∑ r' ∈ insert r s.live, _ = _
      rw [sum_insert hr, hself, bytesIn_nil, Int.zero_add]
      refine sum_congr rfl fun r' hr' ↦ ?_
      have hne : r' ≠ r := fun he ↦ hr (he ▸ hr')
      simp [effect, setFile, hne]
  | openForWr r isSparse | closeActiveZone r | closeWR r | migrateBegin r =>
      exact hsame rfl (setFile_extents s r _ rfl)
  | decode r fileSize extentStart isSparse es =>
      exact hpush _ hen.1 rfl rfl rfl fun e he ↦ by
        obtain ⟨e', -, rfl⟩ := List.mem_map.mp he
        exact .inl (by decide : (-1 : Int) < 0)
  | mergeUpdate r update replace =>
      obtain ⟨hr, -, -⟩ := hen
      have hnew : ∀ e ∈ (s.files update).extents.map fun e ↦ { e with level := -1 },
          e.level < 0 ∨ e.length = 0 := fun e he ↦ by
        obtain ⟨e', -, rfl⟩ := List.mem_map.mp he
        exact .inl (by decide : (-1 : Int) < 0)
      cases replace with
      | false => exact hpush _ hr.1 rfl rfl rfl hnew
      | true =>
          refine .clear hs hr.1 hd fun i l hl ↦ ?_
          show (s.mergeUpdate r update true).liveBytes i l = _
          rw [liveBytes_of_eq_off (t := s.mergeUpdate r update true) hr.1 rfl
            (fun r' hne ↦ congrArg LevelFile.extents (push_files_of_ne _ hne _ _)) i l,
            mergeUpdate_extents, if_pos rfl, List.nil_append, bytesIn_of_neg hl hnew]
          omega
  | recover r i es =>
      refine hpush _ hen.1 rfl rfl rfl fun e he ↦ ?_
      obtain ⟨e', he', rfl⟩ := List.mem_map.mp he
      exact hc.imp id fun hc ↦ hc e' he'
  | allocate r i empty level => exact hsame rfl (s.allocateNewZone_extents r i empty level)
  | append r written ok =>
      rw [effect]
      split
      · exact hsame rfl fun _ ↦ rfl
      · exact hsame rfl (setFile_extents s r _ rfl)
  | pushExtent r => exact .pushExtent hs hadm hen.1.1 ht
  | appendChunk r header wr_size =>
      rw [effect]
      split
      · exact hsame rfl fun _ ↦ rfl
      · refine hpush _ hen.1.1.1 rfl rfl rfl fun e he ↦ ?_
        obtain rfl := List.mem_singleton.mp he
        exact hc
  | setLevel r level => exact .setLevel hs hadm hen ht
  | migrateExtent k i empty level written present =>
      rw [effect]
      split
      · exact hsame rfl fun _ ↦ rfl
      · rename_i m _
        refine hsame ?_ (s.migrateExtent_extents m k i empty level written present)
        unfold migrateExtent
        split
        · rfl
        · cases present <;> rfl
  | migrateEnd persisted =>
      obtain ⟨m, hm⟩ := Option.isSome_iff_exists.mp hen
      have heff : s.effect (.migrateEnd persisted) = s.migrateEnd m persisted := by
        simp only [effect, hm]
      have hcopies := (h.gc m hm).2
      rw [heff]
      refine .of_eq hs rfl fun r hr i l hl ↦ ?_
      by_cases hne : r = m.file
      · subst hne
        have hself : ((s.migrateEnd m persisted).files m.file).extents =
            m.extents.map Prod.fst := by
          simp [migrateEnd, setFile]
        rw [hself]
        exact bytesIn_migrated hcopies (hc m hm) i hl
      · simp [migrateEnd, setFile, hne]
  | destroy r =>
      obtain ⟨hr, -⟩ := hen
      refine .clear hs hr hd fun i l hl ↦ ?_
      have hsum := add_sum_erase s.live (fun r ↦ bytesIn i l (s.files r).extents) hr
      have hrest : (s.effect (.destroy r)).liveBytes i l =
          ∑ r' ∈ s.live.erase r, bytesIn i l (s.files r').extents :=
        sum_congr rfl fun r' hr' ↦ by simp [effect, setFile, ne_of_mem_erase hr']
      rw [hrest, liveBytes]
      omega
  | reset i res => cases res <;> exact hsame rfl fun _ ↦ rfl
  | finish i => exact hsame rfl fun _ ↦ rfl

/-! ## The invariant -/

/-- The counts say what they are meant to say, and so do the space counters. -/
structure Exact (s : LevelFs) : Prop where
  held : Held s
  dynamic : s.dynamic = true
  fits : s.SumsFit
  fault : s.fault = false
  bytes : ∀ i l, 0 ≤ l → (s.labels i).bytes l = s.liveBytes i l

/-- A zone in which nothing is used holds nothing at any level. -/
theorem liveBytes_of_unused (h : Held s) (hi : s.zbd.used i = 0) (l : Int) :
    s.liveBytes i l = 0 := by
  have hle : s.liveBytes i l ≤ ∑ r ∈ s.live, heldIn i (s.files r).extents :=
    sum_le_sum fun r _ ↦ bytesIn_le_heldIn i l _
  have := h.used i
  have := s.pending_nonneg i
  have := s.liveBytes_nonneg i l
  omega

/-- Apart from the calls, the counts of a zone change only when it is reset, and then they
are zero. -/
theorem bytes_effect (h : Exact s) (hen : s.Enabled a) (i : ZoneId) (hl : 0 ≤ l) :
    ((s.effect a).labels i).bytes l = (s.labels i).bytes l := by
  have halloc : ∀ r j empty level,
      ((s.allocated r j empty level).labels i).bytes l = (s.labels i).bytes l := by
    intro r j empty level
    cases empty with
    | false => rfl
    | true =>
        by_cases hij : i = j
        · subst hij; simp [allocated, ZoneLabel.bytes]
        · simp [allocated, hij]
  cases a with
  | allocate r j empty level => exact halloc r j empty level
  | mergeUpdate r update replace => cases replace <;> rfl
  | append r written ok =>
      rw [effect]
      split <;> rfl
  | pushExtent r =>
      show ((s.pushExtent r).labels i).bytes l = _
      rcases s.pushExtent_eq r with ⟨heq, -⟩ | ⟨j, f, -, heq, -⟩ <;> rw [heq]
      rfl
  | appendChunk r header wr_size =>
      rw [effect]
      split <;> rfl
  | migrateExtent k j empty level written present =>
      rw [effect]
      split
      · rfl
      · rename_i m _
        unfold migrateExtent
        split
        · rfl
        · cases present <;> exact halloc m.file j empty level
  | migrateEnd persisted =>
      rw [effect]
      split <;> rfl
  | reset j res =>
      obtain ⟨hused, -⟩ := hen
      have hzero : ((Function.update s.labels j (s.labels j).reset) i).bytes l =
          (s.labels i).bytes l := by
        by_cases hij : i = j
        · subst hij
          rw [Function.update_self, ZoneLabel.bytes_reset, h.bytes i l hl,
            liveBytes_of_unused h.held hused]
        · rw [Function.update_of_ne hij]
      cases res with
      | failed erased => rfl
      | _ => exact hzero
  | _ => rfl

/-- A step under the conditions keeps the counts exact. -/
theorem Exact.step (h : Exact s) (hadm : s.Admits a) (hc : s.Counts a) (ht : t.SumsFit)
    (hstep : step s a = some t) : Exact t := by
  obtain ⟨hen, ⟨-, labels, hup, rfl⟩ | ⟨hnot, -⟩⟩ := step_eq_some hstep
  · have hbalanced := balanced_effect h.held h.fits h.dynamic hen hadm hc ht
    have hlabels : ∀ i l, 0 ≤ l → ((s.effect a).labels i).bytes l = s.liveBytes i l :=
      fun i l hl ↦ (bytes_effect h hen i hl).trans (h.bytes i l hl)
    have hheld := h.held.effect hen
    refine ⟨⟨hheld.used, hheld.gc⟩, (effect_fixed s a).1.trans h.dynamic, ht,
      (effect_fixed s a).2.trans h.fault, fun i l hl ↦ ?_⟩
    have hfit : ∀ pre, pre <+: s.calls a → ∀ i l, 0 ≤ l →
        0 ≤ ((s.effect a).labels i).bytes l + LevelCall.moved i l pre ∧
          ((s.effect a).labels i).bytes l + LevelCall.moved i l pre < 2 ^ 31 := by
      intro pre hpre i l hl
      rw [hlabels i l hl]
      exact hbalanced.fit pre hpre i l hl
    calc (labels i).bytes l
        = ((s.effect a).labels i).bytes l + LevelCall.moved i l (s.calls a) :=
          LevelCall.bytes_updateAll hup hfit i hl
      _ = s.liveBytes i l + LevelCall.moved i l (s.calls a) := by rw [hlabels i l hl]
      _ = (s.effect a).liveBytes i l := (hbalanced.sum i l hl).symm
  · exact absurd hadm hnot

theorem Exact.init (zbd : Zbd) : Exact (init zbd true) where
  held := ⟨fun i ↦ by simp [LevelFs.init, pending], fun m hm ↦ by simp [LevelFs.init] at hm⟩
  dynamic := rfl
  fits := fun i l _ ↦ by simp [LevelFs.init, liveBytes]
  fault := rfl
  bytes := fun i l _ ↦ by
    have hzero : (ZoneLabel.bytes {} l : Int) = 0 := by
      rcases Nat.lt_or_ge l.toNat 5 with h | h
      · exact List.getD_replicate _ h
      · exact List.getD_eq_default _ _ (by simpa using h)
    simpa [LevelFs.init, liveBytes] using hzero

/-- With dynamic level adjustment, in every run whose calls are admitted, in which the
functions that do not count have nothing to count, and in which the sums fit into an `int`:
for every zone and every level from zero on, the count is the sum of the lengths of the
live extents. -/
theorem bytes_exact (zbd : Zbd) {s : LevelFs}
    (h : Reach step (fun s a ↦ s.Admits a ∧ s.Counts a ∧ ∀ t, step s a = some t → t.SumsFit)
      (init zbd true) s) (i : ZoneId) (l : Int) (hl : 0 ≤ l) :
    (s.labels i).bytes l = ∑ r ∈ s.live, bytesIn i l (s.files r).extents := by
  have hexact : Exact s := by
    refine h.invariant (Exact.init zbd) ?_
    intro t u a ht hok hu
    exact ht.step hok.1 hok.2.1 (hok.2.2 u hu) hu
  exact hexact.bytes i l hl

/-- All bytes of all live extents. -/
def total (s : LevelFs) : Nat := ∑ r ∈ s.live, ((s.files r).extents.map (·.length)).sum

theorem sumsFit_of_total (h : s.total < 2 ^ 31) : s.SumsFit := by
  have hfile : ∀ i l (es : List LevelExtent), bytesIn i l es ≤ ((es.map (·.length)).sum : Nat) := by
    intro i l es
    induction es with
    | nil => simp
    | cons e es ih =>
        rw [bytesIn_cons, List.map_cons, List.sum_cons]
        split <;> omega
  intro i l _
  have hle : s.liveBytes i l ≤ (s.total : Int) := by
    rw [liveBytes, total, Nat.cast_sum]
    exact sum_le_sum fun r _ ↦ hfile i l _
  omega

/-- The files are small enough for the sums, after a step as well. -/
def stays (s : LevelFs) (a : LevelAct) : Bool :=
  decide (s.Admits a) && (step s a).all fun t ↦ decide (t.total < 2 ^ 31)

theorem sumsFit_of_stays (h : s.stays a = true) :
    s.Admits a ∧ ∀ t, step s a = some t → t.SumsFit := by
  rw [stays, Bool.and_eq_true, decide_eq_true_eq, Option.all_eq_true] at h
  exact ⟨h.1, fun t ht ↦ sumsFit_of_total (of_decide_eq_true (h.2 t ht))⟩

/-- A file of level 2 is synced; it holds 512 bytes of its level in its zone. -/
theorem bytes_exact_synced : ∃ s : LevelFs, s.live = {0} ∧ (s.files 0).extents.length = 1 ∧
    (s.labels 0).bytes 2 = ∑ r ∈ s.live, bytesIn 0 2 (s.files r).extents := by
  have hrun : ((runAll (fun s a ↦ if s.stays a && decide (s.Counts a) then step s a else none)
      (init fourZones true) (syncedRun.take 7)).map fun s ↦ (s.live, (s.files 0).extents.length)) =
        some ({0}, 1) := by decide
  obtain ⟨s, hs, h⟩ := Option.map_eq_some_iff.mp hrun
  rw [Prod.mk.injEq] at h
  refine ⟨s, h.1, h.2, bytes_exact fourZones ((Reach.of_checked _ hs).mono fun h ↦ ?_) 0
    2 (by decide)⟩
  rw [Bool.and_eq_true, decide_eq_true_eq] at h
  exact ⟨(sumsFit_of_stays h.1).1, h.2, (sumsFit_of_stays h.1).2⟩

/-- A file of level 2 writes a segment with an inline header. -/
def segmentRun : List LevelAct :=
  [.newFile 0, .openForWr 0 true, .setLevel 0 2, .allocate 0 0 true 2, .appendChunk 0 8 504]

/-- The extents of a segment are not counted. -/
theorem exists_uncounted :
    ¬ ∀ zbd s, Reach step (fun s a ↦ s.Admits a ∧ ∀ t, step s a = some t → t.SumsFit)
      (init zbd true) s → ∀ i l, 0 ≤ l →
        (s.labels i).bytes l = ∑ r ∈ s.live, bytesIn i l (s.files r).extents := by
  intro h
  have hrun : ((runAll (fun s a ↦ if s.stays a then step s a else none) (init fourZones true)
      segmentRun).map fun s ↦
      ((s.labels 0).bytes 2, ∑ r ∈ s.live, bytesIn 0 2 (s.files r).extents)) =
        some (0, 496) := by decide
  obtain ⟨s, hs, hb⟩ := Option.map_eq_some_iff.mp hrun
  rw [Prod.mk.injEq] at hb
  have := h fourZones s ((Reach.of_checked _ hs).mono fun h ↦ sumsFit_of_stays h) 0 2 (by decide)
  omega

end LevelFs

end ZenFs
