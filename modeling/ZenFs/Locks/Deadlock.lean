import ZenFs.Locks.Basic

/-!
# Deadlocks

An open waits for a buffer slot, and a reopen for the write lock of its file,
while it holds `files_mtx_`; what it waits for is given back by threads that need
`files_mtx_` before they can do so.  Nothing in the code prevents such a wait from
being entered in vain.  What is shown here is that this is the only way into a
deadlock: where every wait is entered in a state in which it can end, no reachable
state is one.
-/

namespace ZenFs

universe u v

namespace Locks

variable {T : Type u} {F : Type v} {maxBufferCount : Nat} {s s' : Locks T F} {t u : T}

/-! ## The points of the other threads -/

section Frame

variable [DecidableEq T]

theorem closeReturns_pc (s : Locks T F) (u : T) (h : Nat) (dtor : Bool) :
    (s.closeReturns u h dtor).pc = Function.update s.pc u (if dtor then .destroy h else .idle) := by
  cases dtor <;> rfl

theorem closeReturns_writer (s : Locks T F) (u : T) {h h' : Nat} (dtor : Bool) (hne : h' ≠ h) :
    (s.closeReturns u h dtor).writer h' = s.writer h' := by
  cases dtor
  · simp [closeReturns, setPc, setUser, setWriter, hne]
  · rfl

theorem closeReturns_wr (s : Locks T F) (u : T) (h : Nat) (dtor : Bool) :
    (s.closeReturns u h dtor).wr = s.wr := by
  cases dtor <;> rfl

variable [DecidableEq F]

theorem start_pc {call : Start F} (hs : s.start u call = some s') :
    ∃ p, s'.pc = Function.update s.pc u p ∧ p.holdsFilesMtx = false := by
  unfold start at hs
  split at hs
  · cases hs
  rename_i hidle
  rw [not_not] at hidle
  repeat' split at hs
  all_goals cases hs
  all_goals first
    | exact ⟨_, rfl, rfl⟩
    | exact ⟨s.pc u, (Function.update_eq_self u s.pc).symm, by rw [hidle]; rfl⟩

theorem go_pc {c : Outcome} (hs : s.go maxBufferCount u c = some s') :
    ∃ p, s'.pc = Function.update s.pc u p := by
  unfold go at hs
  repeat' split at hs
  all_goals cases hs
  all_goals first
    | exact ⟨_, rfl⟩
    | exact ⟨_, closeReturns_pc ..⟩

/-- A call that begins takes no thread to a point with `files_mtx_`. -/
theorem start_pc_eq {call : Start F} (hs : s.start u call = some s')
    (ht : (s'.pc t).holdsFilesMtx = true) : s'.pc t = s.pc t := by
  obtain ⟨p, hp, hno⟩ := start_pc hs
  rw [hp] at ht ⊢
  by_cases hu : t = u
  · subst hu
    rw [Function.update_self, hno] at ht
    cases ht
  · rw [Function.update_of_ne hu]

theorem go_pc_of_ne {c : Outcome} (hs : s.go maxBufferCount u c = some s') (ht : t ≠ u) :
    s'.pc t = s.pc t := by
  obtain ⟨p, hp⟩ := go_pc hs
  rw [hp, Function.update_of_ne ht]

/-- A thread changes the writer it is in a call on, or makes a new one. -/
theorem go_writer_eq {c : Outcome} (hi : Inv maxBufferCount s)
    (hs : s.go maxBufferCount u c = some s')
    {h : Nat} (hne : t ≠ u) (ht : (s.pc t).onWriter = some h) : s'.writer h = s.writer h := by
  have hown : ∀ {h'}, (s.pc u).onWriter = some h' → h ≠ h' := by
    rintro h' hu rfl
    exact hne (hi.eq_of_onWriter ht hu)
  have hnew : ∀ {h'}, (s.pc u).making = some h' → h ≠ h' := by
    rintro h' hu rfl
    obtain ⟨x, hx, -⟩ := (hi.user t h).mp ht
    rw [(hi.making u h hu).1] at hx
    cases hx
  unfold go at hs
  cases hp : s.pc u with
  | construct f h' b =>
      simp only [hp] at hs
      have hh := hnew (by rw [hp]; rfl : _ = some h')
      split at hs <;> cases hs <;> simp [openReturns, setPc, setWriter, hh]
  | waitSlot f h' =>
      simp only [hp] at hs
      have hh := hnew (by rw [hp]; rfl : _ = some h')
      split at hs <;> cases hs
      simp [openReturns, setPc, setWriter, hh]
  | persistWant h' close =>
      simp only [hp] at hs
      have hh := hown (by rw [hp]; rfl : _ = some h')
      repeat' split at hs
      all_goals cases hs
      all_goals simp [setPc, setUser, setWriter, hh]
  | closing h' dtor =>
      simp only [hp] at hs
      have hh := hown (by rw [hp]; rfl : _ = some h')
      cases c <;> cases hs
      · rfl
      · exact closeReturns_writer s u dtor hh
      · rfl
  | closeWant h' dtor =>
      simp only [hp] at hs
      have hh := hown (by rw [hp]; rfl : _ = some h')
      repeat' split at hs
      all_goals cases hs
      · exact closeReturns_writer s u dtor hh
      · rfl
  | closeRelease h' dtor =>
      simp only [hp] at hs
      have hh := hown (by rw [hp]; rfl : _ = some h')
      split at hs
      · cases hs
      · cases hs
        rw [closeReturns_writer _ u dtor hh]
        simp [setWriter, hh]
  | destroy h' =>
      simp only [hp] at hs
      have hh := hown (by rw [hp]; rfl : _ = some h')
      split at hs
      · cases hs
      · cases hs
        simp [setPc, setWriter, hh]
  | _ =>
      simp only [hp] at hs
      repeat' split at hs
      all_goals cases hs
      all_goals rfl

end Frame

/-! ## Waiting for a slot -/

/-- The writer can give its slot back without `files_mtx_`: it is closed, or the
thread that closes it has done with the metadata. -/
def PastPersist (s : Locks T F) (h : Nat) (x : Writer T F) : Prop :=
  x.isOpen = false ∨
    ∃ u, x.user = some u ∧ (s.pc u = .destroy h ∨ ∃ dtor, s.pc u = .closeRelease h dtor)

/-- An open holds `files_mtx_` and waits for a slot, and every writer that has one
still needs `files_mtx_`. -/
def SlotDeadlock (maxBufferCount : Nat) (s : Locks T F) : Prop :=
  ∃ t f h, s.filesMtx = some t ∧ s.pc t = .waitSlot f h ∧ maxBufferCount ≤ s.currBufferCount ∧
    ∀ h' x, s.writer h' = some x → x.buffered = true → ¬s.PastPersist h' x

/-- There is a slot, or a writer that can give one back without `files_mtx_`. -/
def SlotFree (maxBufferCount : Nat) (s : Locks T F) : Prop :=
  s.currBufferCount < maxBufferCount ∨
    ∃ h x, s.writer h = some x ∧ x.buffered = true ∧ s.PastPersist h x

/-- A wait for a slot is entered only where it can end, and while an open waits no
`Close` fails to close its zone, which would leave the writer open. -/
def SlotOk (maxBufferCount : Nat) (s : Locks T F) : Label T F → Prop
  | .start _ _ => True
  | .go t c =>
      (∀ f h, s.pc t = .construct f h true → s.SlotFree maxBufferCount) ∧
        (∀ h, s.pc t = .closeRelease h false → c = .fail → ∀ u f h', s.pc u ≠ .waitSlot f h')

namespace SlotFree

variable {h : Nat} {p : Pc F}

/-- Another thread moves on, and does not come from the end of a close. -/
theorem setPc [DecidableEq T] (hf : s.SlotFree maxBufferCount)
    (hp : ∀ h, s.pc u ≠ .destroy h ∧ ∀ dtor, s.pc u ≠ .closeRelease h dtor) :
    SlotFree maxBufferCount (s.setPc u p) := by
  rcases hf with hlt | ⟨h, x, hx, hb, hpast⟩
  · exact .inl hlt
  · refine .inr ⟨h, x, hx, hb, ?_⟩
    rcases hpast with hclosed | ⟨v, hv, hpc⟩
    · exact .inl hclosed
    · have hne : v ≠ u := by
        rintro rfl
        rcases hpc with hpc | ⟨dtor, hpc⟩
        · exact (hp h).1 hpc
        · exact (hp h).2 dtor hpc
      exact .inr ⟨v, hv, by simpa [Locks.setPc, hne] using hpc⟩

theorem setWr (hf : s.SlotFree maxBufferCount) (wr : F → Option (Owner T)) :
    SlotFree maxBufferCount { s with wr := wr } := hf

/-- Another thread enters or leaves a call on a writer, and is not at the end of a
close. -/
theorem setUser (hi : Inv maxBufferCount s) (hf : s.SlotFree maxBufferCount) (user : Option T)
    (hp : ∀ v, (s.pc v).onWriter = some h → ∀ dtor, s.pc v ≠ .destroy h ∧
      s.pc v ≠ .closeRelease h dtor) :
    SlotFree maxBufferCount (s.setUser h user) := by
  rcases hf with hlt | ⟨h', x, hx, hb, hpast⟩
  · exact .inl hlt
  · by_cases hne : h' = h
    · subst hne
      refine .inr ⟨h', { x with user := user }, by simp [Locks.setUser, Locks.setWriter, hx],
        hb, .inl ?_⟩
      rcases hpast with hclosed | ⟨v, hv, hpc⟩
      · exact hclosed
      · have hon := (hi.user v h').mpr ⟨x, hx, hv⟩
        rcases hpc with hpc | ⟨dtor, hpc⟩
        · exact absurd hpc (hp v hon true).1
        · exact absurd hpc (hp v hon dtor).2
    · exact .inr ⟨h', x, by simpa [Locks.setUser, Locks.setWriter, hne] using hx, hb, hpast⟩

variable [DecidableEq T]

/-- The writer at the end of a close keeps its slot free. -/
theorem closeRelease [DecidableEq F] {c : Outcome} {dtor : Bool} {x : Writer T F}
    (hi : Inv maxBufferCount s) (hf : s.SlotFree maxBufferCount)
    (hp : s.pc u = .closeRelease h dtor) (hx : s.writer h = some x)
    (hc : dtor = false → c ≠ .fail) :
    SlotFree maxBufferCount
      ({ s.setWriter h (some { x with isOpen := x.isOpen && decide (c = Outcome.fail) }) with
      wr := Function.update s.wr x.file none }.closeReturns u h dtor) := by
  obtain ⟨x', hx', hu⟩ := (hi.user u h).mp (by rw [hp]; rfl)
  obtain rfl := Option.some.inj (hx.symm.trans hx')
  rcases hf with hlt | ⟨h', y, hy, hb, hpast⟩
  · cases dtor <;> exact .inl hlt
  by_cases hne : h' = h
  · subst hne
    obtain rfl := Option.some.inj (hx.symm.trans hy)
    cases dtor with
    | true =>
        refine .inr ⟨h', _, Function.update_self .., hb, .inr ⟨u, hu, .inl ?_⟩⟩
        simp [Locks.closeReturns, Locks.setPc]
    | false =>
        refine .inr ⟨h', { x with isOpen := x.isOpen && decide (c = Outcome.fail), user := none },
          ?_, hb, .inl ?_⟩
        · simp [Locks.closeReturns, Locks.setPc, Locks.setUser, Locks.setWriter]
        · simp [hc rfl]
  · refine .inr ⟨h', y, ?_, hb, ?_⟩
    · cases dtor <;> simpa [Locks.closeReturns, Locks.setPc, Locks.setUser, Locks.setWriter,
        hne] using hy
    · rcases hpast with hclosed | ⟨v, hv, hpc⟩
      · exact .inl hclosed
      · have hvu : v ≠ u := by
          rintro rfl
          rw [hp] at hpc
          rcases hpc with hpc | ⟨dtor, hpc⟩
          · cases hpc
          · cases hpc
            exact hne rfl
        refine .inr ⟨v, hv, ?_⟩
        cases dtor <;> simpa [Locks.closeReturns, Locks.setPc, Locks.setUser, Locks.setWriter,
          hvu] using hpc

/-- A slot is given back. -/
theorem destroy {x : Writer T F} (hi : Inv maxBufferCount s) (hmax : 1 ≤ maxBufferCount)
    (hf : s.SlotFree maxBufferCount) (hp : s.pc u = .destroy h) (hx : s.writer h = some x) :
    SlotFree maxBufferCount ({ s.setWriter h none with
      currBufferCount := if x.buffered then s.currBufferCount - 1 else s.currBufferCount }.setPc
        u .idle) := by
  cases hb : x.buffered with
  | true =>
      have hle := hi.count
      refine .inl ?_
      simp only [Locks.setPc, if_true]
      omega
  | false =>
      rcases hf with hlt | ⟨h', y, hy, hb', hpast⟩
      · exact .inl hlt
      have hne : h' ≠ h := by
        rintro rfl
        obtain rfl := Option.some.inj (hx.symm.trans hy)
        rw [hb] at hb'
        cases hb'
      refine .inr ⟨h', y, by simpa [Locks.setPc, Locks.setWriter, hne] using hy, hb', ?_⟩
      rcases hpast with hclosed | ⟨v, hv, hpc⟩
      · exact .inl hclosed
      · have hvu : v ≠ u := by
          rintro rfl
          rw [hp] at hpc
          rcases hpc with hpc | ⟨dtor, hpc⟩
          · cases hpc
            exact hne rfl
          · cases hpc
        exact .inr ⟨v, hv, by simpa [Locks.setPc, Locks.setWriter, hvu] using hpc⟩

variable [DecidableEq F]

/-- What another thread does while an open waits for a slot. -/
theorem go {c : Outcome} {f : F} (hi : Inv maxBufferCount s) (hmax : 1 ≤ maxBufferCount)
    (ht : s.pc t = .waitSlot f h) (hne : u ≠ t) (hok : s.SlotOk maxBufferCount (.go u c))
    (hf : s.SlotFree maxBufferCount) (hs : s.go maxBufferCount u c = some s') :
    s'.SlotFree maxBufferCount := by
  have hlocked : s.filesMtx = some t := (hi.mtx t).mpr (by rw [ht]; rfl)
  have hnotmtx : (s.pc u).holdsFilesMtx = false := by
    by_contra hu
    exact hne (hi.eq_of_holds (by simpa using hu) (by rw [ht]; rfl))
  unfold Locks.go at hs
  cases hp : s.pc u with
  | idle => simp [hp] at hs
  | openWant _ _ _ => simp [hp, hlocked] at hs
  | openLocked _ _ _ => simp [hp, Pc.holdsFilesMtx] at hnotmtx
  | openWaitWr _ _ => simp [hp, Pc.holdsFilesMtx] at hnotmtx
  | construct _ _ _ => simp [hp, Pc.holdsFilesMtx] at hnotmtx
  | waitSlot _ _ => simp [hp, Pc.holdsFilesMtx] at hnotmtx
  | persistWant _ _ => simp [hp, hlocked] at hs
  | closeWant _ _ => simp [hp, hlocked] at hs
  | migrateFind _ => simp [hp, hlocked] at hs
  | migrateWant _ => simp [hp, hlocked] at hs
  | migrateTry f =>
      simp only [hp] at hs
      split at hs
      · cases hs
        exact (hf.setWr _).setPc (by simp [hp])
      · cases hs
        exact hf.setPc (by simp [hp])
  | migrateRelease f =>
      simp only [hp] at hs
      cases hs
      exact (hf.setWr _).setPc (by simp [hp])
  | closing h' dtor =>
      simp only [hp] at hs
      cases c with
      | ok =>
          cases hs
          exact hf.setPc (by simp [hp])
      | sync =>
          cases hs
          exact hf.setPc (by simp [hp])
      | fail =>
          cases hs
          rw [Locks.closeReturns]
          cases dtor with
          | true => exact hf.setPc (by simp [hp])
          | false =>
              have huser := hf.setUser hi (h := h') none fun v hv dtor ↦ by
                obtain rfl := hi.eq_of_onWriter hv (by rw [hp]; rfl : (s.pc u).onWriter = some h')
                simp [hp]
              exact huser.setPc (by simp [Locks.setUser, Locks.setWriter, hp])
  | closeRelease h' dtor =>
      obtain ⟨x, hx, -⟩ := (hi.user u h').mp (by rw [hp]; rfl)
      simp only [hp, hx] at hs
      cases hs
      refine hf.closeRelease hi hp hx fun hd hc ↦ ?_
      subst hd
      exact hok.2 h' hp hc t f h ht
  | destroy h' =>
      obtain ⟨x, hx, -⟩ := (hi.user u h').mp (by rw [hp]; rfl)
      simp only [hp, hx] at hs
      cases hs
      exact hf.destroy hi hmax hp hx

/-- What another thread does when it makes a call. -/
theorem start {call : Start F} (hi : Inv maxBufferCount s) (hf : s.SlotFree maxBufferCount)
    (hs : s.start u call = some s') : s'.SlotFree maxBufferCount := by
  unfold Locks.start at hs
  split at hs
  · cases hs
  rename_i hidle
  rw [not_not] at hidle
  have henter : ∀ {h : Nat} {x : Writer T F} {p : Pc F}, s.writer h = some x →
    x.user.isNone = true →
      SlotFree maxBufferCount ((s.setUser h (some u)).setPc u p) := by
    intro h x p hx hfree
    have huser := hf.setUser hi (h := h) (some u) fun v hv ↦ by
      obtain ⟨y, hy, hyv⟩ := (hi.user v h).mp hv
      obtain rfl := Option.some.inj (hx.symm.trans hy)
      rw [hyv] at hfree
      cases hfree
    exact huser.setPc (by simp [Locks.setUser, Locks.setWriter, hidle])
  cases call with
  | openWritableFile f buffered reopen =>
      cases hs
      exact hf.setPc (by simp [hidle])
  | migrateFileExtents f =>
      cases hs
      exact hf.setPc (by simp [hidle])
  | write h =>
      dsimp only at hs
      split at hs
      · cases hs
      rename_i x hx
      split at hs
      · rename_i hfree
        cases hs
        exact henter hx (Bool.and_eq_true_iff.mp hfree).1
      · cases hs
  | close h dtor =>
      dsimp only at hs
      split at hs
      · cases hs
      rename_i x hx
      split at hs
      · rename_i hfree
        split at hs
        · cases hs
          exact henter hx hfree
        · split at hs
          · cases hs
            exact henter hx hfree
          · cases hs
            exact hf
      · cases hs

end SlotFree

variable [DecidableEq T] [DecidableEq F]

/-- A thread gets to wait for a slot from the constructor only. -/
theorem go_waitSlot {c : Outcome} {f : F} {h : Nat} (hs : s.go maxBufferCount u c = some s')
    (hu : s'.pc u = .waitSlot f h) :
    s.pc u = .construct f h true ∧ s' = s.setPc u (.waitSlot f h) := by
  unfold go at hs
  repeat' split at hs
  all_goals cases hs
  all_goals simp [setPc, acquireWRLock, openReturns, closeReturns_pc] at hu
  case h_5.isTrue.refl hp hb =>
    obtain ⟨rfl, rfl⟩ := hu
    rw [hp, hb.1]
    exact ⟨rfl, rfl⟩
  -- the other branches end a close
  all_goals split at hu <;> cases hu

/-- Whatever threads open, write, close and migrate: while each wait for a slot is
entered in a state in which it can end, no reachable state is a deadlock. -/
theorem no_slot_deadlock (hmax : 1 ≤ maxBufferCount)
    (hr : Reach (step maxBufferCount) (SlotOk maxBufferCount) (init : Locks T F) s) :
    ¬s.SlotDeadlock maxBufferCount := by
  have hinv : Inv maxBufferCount s ∧ ∀ t f h, s.pc t = .waitSlot f h →
      s.SlotFree maxBufferCount := by
    refine hr.invariant (I := fun s ↦ Inv maxBufferCount s ∧
      ∀ t f h, s.pc t = .waitSlot f h → s.SlotFree maxBufferCount)
      ⟨Inv.init maxBufferCount, nofun⟩ ?_
    rintro s s' l ⟨hi, hwait⟩ hok hs
    refine ⟨hi.step hs, fun t f h ht ↦ ?_⟩
    have hholds : (s'.pc t).holdsFilesMtx = true := by rw [ht]; rfl
    cases l with
    | start u call =>
        rw [start_pc_eq hs hholds] at ht
        exact (hwait t f h ht).start hi hs
    | go u c =>
        by_cases hu : t = u
        · subst hu
          obtain ⟨hp, rfl⟩ := go_waitSlot hs ht
          exact (hok.1 f h hp).setPc (by simp [hp])
        · rw [go_pc_of_ne hs hu] at ht
          exact (hwait t f h ht).go hi hmax ht (Ne.symm hu) hok hs
  rintro ⟨t, f, h, -, ht, hfull, hall⟩
  rcases hinv.2 t f h ht with hlt | ⟨h', x, hx, hb, hpast⟩
  · omega
  · exact hall h' x hx hb hpast

/-- With one slot, the second of two opens holds `files_mtx_` and waits for the
first writer, which needs it. -/
theorem slot_deadlock_reached :
    ∃ s : Locks Nat Nat, Reach (step 1) (fun _ _ ↦ True) init s ∧ s.SlotDeadlock 1 := by
  refine ⟨_, Reach.of_runAll [
    .start 0 (.openWritableFile 0 true false), .go 0 .ok, .go 0 .ok, .go 0 .ok,
    .start 1 (.openWritableFile 1 true false), .go 1 .ok, .go 1 .ok, .go 1 .ok]
    (fun _ _ ↦ trivial) rfl, 1, 1, 1, rfl, rfl, Nat.le_refl _, ?_⟩
  intro h x hx _
  by_cases hh : h = 0
  · subst hh
    obtain rfl := Option.some.inj hx
    rintro (hclosed | ⟨u, hu, -⟩)
    · cases hclosed
    · cases hu
  · cases (Function.update_of_ne hh _ _).symm.trans hx

/-- An open waits for the slot of a writer that is closed and behind its persist. -/
theorem no_slot_deadlock_single :
    ∃ s : Locks Nat Nat, runAll (step 1) init
        [.start 0 (.openWritableFile 0 true false), .go 0 .ok, .go 0 .ok, .go 0 .ok,
          .start 0 (.close 0 false), .go 0 .ok, .go 0 .ok,
          .start 1 (.openWritableFile 1 true false), .go 1 .ok, .go 1 .ok, .go 1 .ok] = some s ∧
      s.filesMtx = some 1 ∧ s.pc 1 = .waitSlot 1 1 ∧ s.currBufferCount = 1 ∧ ¬s.SlotDeadlock 1 := by
  refine ⟨_, rfl, rfl, rfl, rfl,
    no_slot_deadlock (Nat.le_refl 1) (?_ : Reach (step 1) (SlotOk 1) init _)⟩
  -- the constructor of the first writer finds a slot, that of the second a writer past its persist
  have hslot : ∀ {s : Locks Nat Nat} {t}, s.SlotFree 1 → s.SlotOk 1 (.go t .ok) :=
    fun h ↦ ⟨fun _ _ _ ↦ h, fun _ _ hc ↦ absurd hc (by decide)⟩
  have hother : ∀ {s : Locks Nat Nat} {t}, (∀ f h, s.pc t ≠ .construct f h true) →
      s.SlotOk 1 (.go t .ok) :=
    fun h ↦ ⟨fun f h' hp ↦ absurd hp (h f h'), fun _ _ hc ↦ absurd hc (by decide)⟩
  refine Reach.head (i := .start 0 (.openWritableFile 0 true false)) trivial rfl ?_
  refine Reach.head (i := .go 0 .ok) (hother nofun) rfl ?_
  refine Reach.head (i := .go 0 .ok) (hother nofun) rfl ?_
  refine Reach.head (i := .go 0 .ok) (hslot (.inl (by decide))) rfl ?_
  refine Reach.head (i := .start 0 (.close 0 false)) trivial rfl ?_
  refine Reach.head (i := .go 0 .ok) (hother nofun) rfl ?_
  refine Reach.head (i := .go 0 .ok) (hother nofun) rfl ?_
  refine Reach.head (i := .start 1 (.openWritableFile 1 true false)) trivial rfl ?_
  refine Reach.head (i := .go 1 .ok) (hother nofun) rfl ?_
  refine Reach.head (i := .go 1 .ok) (hother nofun) rfl ?_
  exact Reach.head (i := .go 1 .ok)
    (hslot (.inr ⟨0, _, rfl, rfl, .inr ⟨0, rfl, .inr ⟨false, rfl⟩⟩⟩)) rfl .refl

/-! ## Waiting for a write lock -/

/-- A reopen holds `files_mtx_` and waits for the write lock of its file, and the
thread that has the lock waits for `files_mtx_`. -/
def WrDeadlock (s : Locks T F) : Prop :=
  ∃ t u f buffered, s.filesMtx = some t ∧ s.pc t = .openWaitWr f buffered ∧
    ((∃ h, s.wr f = some (.writer h) ∧
        ((∃ dtor, s.pc u = .closeWant h dtor) ∨ ∃ close, s.pc u = .persistWant h close)) ∨
      (s.wr f = some (.migrator u) ∧ s.pc u = .migrateWant f))

/-- The thread has the write lock of `f`, and gives it back without `files_mtx_`. -/
def Releases (s : Locks T F) (f : F) (u : T) : Prop :=
  (∃ h dtor x, s.wr f = some (.writer h) ∧ s.pc u = .closeRelease h dtor ∧
      s.writer h = some x ∧ x.file = f) ∨
    (s.wr f = some (.migrator u) ∧ s.pc u = .migrateRelease f)

/-- The write lock is free, or will be without `files_mtx_`. -/
def WrFree (s : Locks T F) (f : F) : Prop := s.wr f = none ∨ ∃ u, s.Releases f u

/-- A wait for a write lock is entered only where it can end, and no migration takes
a lock that a reopen is waiting for. -/
def WrOk (s : Locks T F) : Label T F → Prop
  | .start _ _ => True
  | .go t _ =>
      (∀ f buffered, s.pc t = .openLocked f buffered true → s.WrFree f) ∧
        (∀ f, s.pc t = .migrateTry f → s.wr f = none →
          ∀ u buffered, s.pc u ≠ .openWaitWr f buffered)

namespace WrFree

variable {f : F}

omit [DecidableEq T] [DecidableEq F] in
/-- A thread that does not have the lock moves on. -/
theorem of_move (hf : s.WrFree f) (hwr : s'.wr f = s.wr f) (hpc : ∀ v, v ≠ u → s'.pc v = s.pc v)
    (hw : ∀ v, v ≠ u → ∀ h x, (s.pc v).onWriter = some h → s.writer h = some x →
      ∃ x', s'.writer h = some x' ∧ x'.file = x.file)
    (hu : ¬s.Releases f u) : s'.WrFree f := by
  rcases hf with hnone | ⟨v, hv⟩
  · exact .inl (hwr.trans hnone)
  have hvu : v ≠ u := fun heq ↦ hu (heq ▸ hv)
  refine .inr ⟨v, ?_⟩
  rcases hv with ⟨h, dtor, x, hown, hp, hx, hfile⟩ | ⟨hown, hp⟩
  · obtain ⟨x', hx', hfile'⟩ := hw v hvu h x (by rw [hp]; rfl) hx
    exact .inl ⟨h, dtor, x', hwr.trans hown, (hpc v hvu).trans hp, hx', hfile'.trans hfile⟩
  · exact .inr ⟨hwr.trans hown, (hpc v hvu).trans hp⟩

/-- What a thread without `files_mtx_` does to a write lock. -/
theorem go_wr {c : Outcome} (hs : s.go maxBufferCount u c = some s')
    (hm : (s.pc u).holdsFilesMtx = false) :
    s'.wr f = s.wr f ∨ s'.wr f = none ∨ (s.pc u = .migrateTry f ∧ s.wr f = none) := by
  have hclear : ∀ f', Function.update s.wr f' none f = s.wr f ∨
      Function.update s.wr f' none f = none := by
    intro f'
    by_cases hf' : f = f'
    · subst hf'
      exact .inr (Function.update_self ..)
    · exact .inl (Function.update_of_ne hf' ..)
  unfold go at hs
  cases hp : s.pc u with
  | openLocked _ _ _ => simp [hp, Pc.holdsFilesMtx] at hm
  | openWaitWr _ _ => simp [hp, Pc.holdsFilesMtx] at hm
  | construct _ _ _ => simp [hp, Pc.holdsFilesMtx] at hm
  | waitSlot _ _ => simp [hp, Pc.holdsFilesMtx] at hm
  | closing h dtor =>
      simp only [hp] at hs
      cases c <;> cases hs
      · exact .inl rfl
      · exact .inl (congrFun (closeReturns_wr ..) f)
      · exact .inl rfl
  | closeWant h dtor =>
      simp only [hp] at hs
      repeat' split at hs
      all_goals cases hs
      · exact .inl (congrFun (closeReturns_wr ..) f)
      · exact .inl rfl
  | closeRelease h dtor =>
      simp only [hp] at hs
      split at hs
      · cases hs
      · rename_i x _
        cases hs
        rw [closeReturns_wr]
        exact (hclear x.file).imp_right .inl
  | migrateTry f' =>
      simp only [hp] at hs
      split at hs
      · rename_i hnone
        cases hs
        by_cases hf' : f = f'
        · subst hf'
          exact .inr (.inr ⟨rfl, hnone⟩)
        · exact .inl (Function.update_of_ne hf' ..)
      · cases hs
        exact .inl rfl
  | migrateRelease f' =>
      simp only [hp] at hs
      cases hs
      exact (hclear f').imp_right .inl
  | _ =>
      simp only [hp] at hs
      repeat' split at hs
      all_goals cases hs
      all_goals exact .inl rfl

/-- The thread that has the lock gives it back. -/
theorem go_wr_of_releases {c : Outcome} (hs : s.go maxBufferCount u c = some s')
    (hu : s.Releases f u) : s'.wr f = none := by
  unfold go at hs
  rcases hu with ⟨h, dtor, x, -, hp, hx, rfl⟩ | ⟨-, hp⟩
  · simp only [hp, hx] at hs
    cases hs
    rw [closeReturns_wr]
    exact Function.update_self ..
  · simp only [hp] at hs
    cases hs
    exact Function.update_self ..

/-- What another thread does while a reopen waits for the lock. -/
theorem go {c : Outcome} {buffered : Bool} (hi : Inv maxBufferCount s)
    (ht : s.pc t = .openWaitWr f buffered) (hne : u ≠ t) (hok : s.WrOk (.go u c)) (hf : s.WrFree f)
    (hs : s.go maxBufferCount u c = some s') : s'.WrFree f := by
  by_cases hu : s.Releases f u
  · exact .inl (go_wr_of_releases hs hu)
  have hnotmtx : (s.pc u).holdsFilesMtx = false := by
    by_contra hholds
    exact hne (hi.eq_of_holds (by simpa using hholds) (by rw [ht]; rfl))
  rcases go_wr hs hnotmtx with hwr | hnone | ⟨htry, hnone⟩
  · refine hf.of_move hwr (fun v hv ↦ go_pc_of_ne hs hv) (fun v hv h x hon hx ↦ ?_) hu
    exact ⟨x, (go_writer_eq hi hs hv hon).trans hx, rfl⟩
  · exact .inl hnone
  · exact absurd ht (hok.2 f htry hnone t buffered)

/-- What another thread does when it makes a call. -/
theorem start {call : Start F} (hf : s.WrFree f) (hs : s.start u call = some s') : s'.WrFree f := by
  have hidle : s.pc u = .idle := by
    by_contra hidle
    simp [Locks.start, hidle] at hs
  have hu : ¬s.Releases f u := by
    rintro (⟨h, dtor, x, -, hp, -⟩ | ⟨-, hp⟩) <;> simp [hidle] at hp
  obtain ⟨p, hp, -⟩ := start_pc hs
  have huser : ∀ h' h x, s.writer h = some x →
      ∃ x', (s.setUser h' (some u)).writer h = some x' ∧ x'.file = x.file := by
    intro h' h x hx
    by_cases hh : h = h'
    · subst hh
      exact ⟨{ x with user := some u }, by simp [setUser, setWriter, hx], rfl⟩
    · exact ⟨x, by simpa [setUser, setWriter, hh] using hx, rfl⟩
  refine hf.of_move ?_ (fun v hv ↦ by rw [hp, Function.update_of_ne hv]) (fun v _ h x _ hx ↦ ?_) hu
  all_goals
    unfold Locks.start at hs
    repeat' split at hs
    all_goals cases hs
  all_goals first
    | rfl
    | exact ⟨x, hx, rfl⟩
    | exact huser _ h x hx

end WrFree

/-- A thread gets to wait for a write lock only from a reopen. -/
theorem go_openWaitWr {c : Outcome} {f : F} {buffered : Bool}
    (hs : s.go maxBufferCount u c = some s') (hu : s'.pc u = .openWaitWr f buffered) :
    s.pc u = .openLocked f buffered true ∧ s' = s.setPc u (.openWaitWr f buffered) := by
  unfold go at hs
  repeat' split at hs
  all_goals cases hs
  all_goals simp [setPc, acquireWRLock, openReturns, closeReturns_pc] at hu
  case h_3.isFalse.isFalse.isTrue.refl hp _ _ hre =>
    obtain ⟨rfl, rfl⟩ := hu
    rw [hp, hre]
    exact ⟨rfl, rfl⟩
  -- the other branches end a close
  all_goals split at hu <;> cases hu

/-- Whatever threads reopen, write, close and migrate: while each wait for a write
lock is entered in a state in which it can end, and no migration takes a lock that
is waited for, no reachable state is a deadlock. -/
theorem no_wr_deadlock (hr : Reach (step maxBufferCount) WrOk (init : Locks T F) s) :
    ¬s.WrDeadlock := by
  have hinv : Inv maxBufferCount s ∧ ∀ t f b, s.pc t = .openWaitWr f b → s.WrFree f := by
    refine hr.invariant (I := fun s ↦ Inv maxBufferCount s ∧
      ∀ t f b, s.pc t = .openWaitWr f b → s.WrFree f) ⟨Inv.init maxBufferCount, nofun⟩ ?_
    rintro s s' l ⟨hi, hwait⟩ hok hs
    refine ⟨hi.step hs, fun t f b ht ↦ ?_⟩
    have hholds : (s'.pc t).holdsFilesMtx = true := by rw [ht]; rfl
    cases l with
    | start u call =>
        rw [start_pc_eq hs hholds] at ht
        exact (hwait t f b ht).start hs
    | go u c =>
        by_cases hu : t = u
        · subst hu
          obtain ⟨hp, rfl⟩ := go_openWaitWr hs ht
          refine (hok.1 f b hp).of_move (u := t) rfl ?_ (fun v _ h x _ hx ↦ ⟨x, hx, rfl⟩) ?_
          · exact fun v hv ↦ Function.update_of_ne hv ..
          · rintro (⟨h, dtor, x, -, hp', -⟩ | ⟨-, hp'⟩) <;> simp [hp] at hp'
        · rw [go_pc_of_ne hs hu] at ht
          exact (hwait t f b ht).go hi ht (Ne.symm hu) hok hs
  obtain ⟨hi, hwait⟩ := hinv
  rintro ⟨t, u, f, b, -, ht, hhas⟩
  rcases hwait t f b ht with hnone | ⟨v, ⟨h, dtor, x, hown, hv, -⟩ | ⟨hown, hv⟩⟩
  · rcases hhas with ⟨h, hown, -⟩ | ⟨hown, -⟩ <;> simp [hnone] at hown
  · -- the writer is used by one thread, which is behind its persist
    rcases hhas with ⟨h', hown', hu⟩ | ⟨hown', -⟩
    · obtain rfl : h' = h := by simpa [hown] using hown'.symm
      have hon : (s.pc u).onWriter = some h' := by
        rcases hu with ⟨d, hu⟩ | ⟨k, hu⟩ <;> rw [hu] <;> rfl
      obtain rfl := hi.eq_of_onWriter hon (by rw [hv]; rfl : (s.pc v).onWriter = some h')
      rcases hu with ⟨d, hu⟩ | ⟨k, hu⟩ <;> simp [hu] at hv
    · simp [hown] at hown'
  · rcases hhas with ⟨h', hown', -⟩ | ⟨hown', hu⟩
    · simp [hown] at hown'
    · obtain rfl : u = v := by simpa [hown] using hown'.symm
      simp [hu] at hv

/-- A reopen of a file that is open waits for its writer, which is being closed. -/
theorem wr_deadlock_reached :
    ∃ s : Locks Nat Nat, Reach (step 2) (fun _ _ ↦ True) init s ∧ s.WrDeadlock := by
  refine ⟨_, Reach.of_runAll [
    .start 0 (.openWritableFile 0 true false), .go 0 .ok, .go 0 .ok, .go 0 .ok,
    .start 1 (.openWritableFile 0 true true), .go 1 .ok, .go 1 .ok,
    .start 0 (.close 0 false), .go 0 .ok]
    (fun _ _ ↦ trivial) rfl, 1, 0, 0, true, rfl, rfl, .inl ⟨0, rfl, .inl ⟨false, rfl⟩⟩⟩

/-- A reopen behind the close. -/
theorem no_wr_deadlock_closed :
    ∃ s : Locks Nat Nat, runAll (step 2) init
        [.start 0 (.openWritableFile 0 true false), .go 0 .ok, .go 0 .ok, .go 0 .ok,
          .start 0 (.close 0 false), .go 0 .ok, .go 0 .ok, .go 0 .ok,
          .start 1 (.openWritableFile 0 true true), .go 1 .ok, .go 1 .ok] = some s ∧
      s.wr 0 = some (.writer 1) ∧ ¬s.WrDeadlock := by
  refine ⟨_, rfl, rfl, no_wr_deadlock (?_ : Reach (step 2) WrOk init _)⟩
  -- the only wait for a write lock is that of the reopen, which finds it free
  have hother : ∀ {s : Locks Nat Nat} {t c}, (∀ f b, s.pc t ≠ .openLocked f b true) →
      (∀ f, s.pc t ≠ .migrateTry f) → s.WrOk (.go t c) :=
    fun h h' ↦ ⟨fun f b hp ↦ absurd hp (h f b), fun f hp ↦ absurd hp (h' f)⟩
  refine Reach.head (i := .start 0 (.openWritableFile 0 true false)) trivial rfl ?_
  refine Reach.head (i := .go 0 .ok) (hother nofun nofun) rfl ?_
  refine Reach.head (i := .go 0 .ok) (hother nofun nofun) rfl ?_
  refine Reach.head (i := .go 0 .ok) (hother nofun nofun) rfl ?_
  refine Reach.head (i := .start 0 (.close 0 false)) trivial rfl ?_
  refine Reach.head (i := .go 0 .ok) (hother nofun nofun) rfl ?_
  refine Reach.head (i := .go 0 .ok) (hother nofun nofun) rfl ?_
  refine Reach.head (i := .go 0 .ok) (hother nofun nofun) rfl ?_
  refine Reach.head (i := .start 1 (.openWritableFile 0 true true)) trivial rfl ?_
  refine Reach.head (i := .go 1 .ok) (hother nofun nofun) rfl ?_
  refine Reach.head (i := .go 1 .ok) ⟨fun f b hp ↦ ?_, nofun⟩ rfl .refl
  cases hp
  exact .inl rfl

end Locks

end ZenFs
