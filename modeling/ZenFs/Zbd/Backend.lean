import ZenFs.Lib.Reach
import ZenFs.Zbd.Zone

/-!
# Write pointers behind the backends

`wp_` of a zone is to be the write pointer that the device has for it.  A call of
`Zone::Append`, `Zone::Finish` or `Zone::Reset` makes system calls through one of two
backends, and each of them may fail or, where it writes, write less than it is asked
to.  The results of the system calls of a call are arguments of it, so that every
pattern of them is covered; a call that gets too few or too many of them is not one
that has returned.
-/

namespace ZenFs

/-- The zones of a device, which are of one size; the end of a zone may not be writable. -/
structure ZoneGeometry where
  zoneSz : Nat
  capacity : Nat → Nat
  zoneSz_pos : 0 < zoneSz
  capacity_le : ∀ nr, capacity nr ≤ zoneSz

inductive DevCond where
  | usable
  | finished
  | offline
deriving DecidableEq, Repr

/-- A zone on the device. -/
structure DevZone where
  wp : Nat
  cond : DevCond
deriving DecidableEq, Repr

/-- `ZbdBackendType`. -/
inductive ZbdBackendType where
  | blockDev
  | zoneFS
deriving DecidableEq, Repr

/-- What a `pwrite` does. -/
inductive Pwrite where
  | failed
  | wrote (n : Nat)
deriving DecidableEq, Repr

/-- What happens in one `ZonedBlockDeviceBackend::Write`: whether the file of the zone
can be opened, the results of its `pwrite`s, and the text of `errno`. -/
structure WriteEnv where
  opens : Bool := true
  pwrites : List Pwrite
  errno : String := "Input/output error"
deriving DecidableEq, Repr

/-- What happens in one `ZonedBlockDeviceBackend::Reset`: the zone is not reset, or it is
and its new state cannot be found out, or can be. -/
inductive ResetEnv where
  | failed (errno : String)
  | reportFailed (offline : Bool) (errno : String)
  | done (offline : Bool)
deriving DecidableEq, Repr

/-- A number as an `int`. -/
def toInt32 (n : Nat) : Int := if n < 2 ^ 31 then n else n - 2 ^ 32

/-- The most that one system call transfers. -/
def MAX_RW_COUNT : Nat := 0x7ffff000

/-- The zones of a `ZonedBlockDevice` and of its device, by their number. -/
structure Pointers (g : ZoneGeometry) where
  mountpoint : String
  readonly : Bool
  zones : Nat → Zone
  dev : Nat → DevZone

/-- Zone `nr` of the device, behind `n` more bytes. -/
def devWrote (dev : Nat → DevZone) (nr n : Nat) : Nat → DevZone :=
  Function.update dev nr { dev nr with wp := (dev nr).wp + n }

/-- How many of `count` bytes are written by a system call that writes at most `n`. -/
def transferred (n : Nat) (count : Int) : Nat := min n (min count.toNat MAX_RW_COUNT)

/-- The system call.  Zone `nr` takes data at its write pointer only. -/
def pwrite (dev : Nat → DevZone) (nr pos : Nat) (count : Int) : Pwrite → Int × (Nat → DevZone)
  | .failed => (-1, dev)
  | .wrote n =>
      if 0 ≤ count ∧ (dev nr).cond = .usable ∧ pos = (dev nr).wp then
        (transferred n count, devWrote dev nr (transferred n count))
      else (-1, dev)

namespace ZbdlibBackend

/-- `ZbdlibBackend::Write`. -/
def write (g : ZoneGeometry) (dev : Nat → DevZone) (e : WriteEnv) (size pos : Nat) :
    Option (Int × (Nat → DevZone)) :=
  match e.pwrites with
  | [p] => some (pwrite dev (pos / g.zoneSz) pos size p)
  | _ => none

end ZbdlibBackend

namespace ZoneFsBackend

/-- `ZoneFsBackend::LBAToZoneFile`. -/
def lbaToZoneFile (g : ZoneGeometry) (mountpoint : String) (start : Nat) : String :=
  mountpoint ++ "/seq/" ++ toString (start / g.zoneSz)

/-- The loop of `ZoneFsBackend::Write` on the file of zone `nr`. -/
def writeLoop (g : ZoneGeometry) (nr : Nat) :
    List Pwrite → Int → Nat → Int → (Nat → DevZone) → Option (Int × (Nat → DevZone))
  | [], writeToZone, _, written, dev => if writeToZone = 0 then some (written, dev) else none
  | p :: ps, writeToZone, offset, written, dev =>
      if writeToZone = 0 then none
      else
        let ret := (pwrite dev nr (nr * g.zoneSz + offset) writeToZone p).1
        let dev' := (pwrite dev nr (nr * g.zoneSz + offset) writeToZone p).2
        if 0 < ret then writeLoop g nr ps (writeToZone - ret) (offset + ret.toNat)
          (written + ret) dev'
        else if ps = [] then some (if ret < 0 then ret else written, dev')
        else none

/-- `ZoneFsBackend::Write`. -/
def write (g : ZoneGeometry) (readonly : Bool) (dev : Nat → DevZone) (e : WriteEnv)
    (size pos : Nat) : Option (Int × (Nat → DevZone)) :=
  let nr := pos / g.zoneSz
  let offset := pos - nr * g.zoneSz
  let writeToZone := toInt32 (min size (g.zoneSz - offset))
  if readonly = true ∨ e.opens = false then if e.pwrites = [] then some (-1, dev) else none
  else writeLoop g nr e.pwrites writeToZone offset 0 dev

end ZoneFsBackend

namespace Pointers

variable {g : ZoneGeometry}

/-- `zbd_be_->Write`. -/
def write (s : Pointers g) : ZbdBackendType → WriteEnv → Nat → Nat → Option (Int × (Nat → DevZone))
  | .blockDev => ZbdlibBackend.write g s.dev
  | .zoneFS => ZoneFsBackend.write g s.readonly s.dev

/-- Zone `nr` behind `n` more bytes. -/
def advance (s : Pointers g) (nr n : Nat) : Pointers g :=
  { s with
    zones := Function.update s.zones nr
      { s.zones nr with wp := (s.zones nr).wp + n, capacity := (s.zones nr).capacity - n } }

/-- The loop of `Zone::Append`. -/
def appendLoop (b : ZbdBackendType) (nr : Nat) :
    List WriteEnv → Nat → Pointers g → Option (Pointers g × Status)
  | [], left, s => if left = 0 then some (s, .ok) else none
  | e :: es, left, s =>
      if left = 0 then none
      else
        match s.write b e left (s.zones nr).wp with
        | none => none
        | some (ret, dev) =>
            if ret < 0 then if es = [] then some ({ s with dev := dev }, .ioError e.errno) else none
            else appendLoop b nr es (left - ret.toNat) ({ s with dev := dev }.advance nr ret.toNat)

/-- `Zone::Append`. -/
def append (b : ZbdBackendType) (nr : Nat) (size : UInt32) (es : List WriteEnv) (s : Pointers g) :
    Option (Pointers g × Status) :=
  if (s.zones nr).capacity < size.toNat then
    if es = [] then some (s, .noSpace "Not enough capacity for append") else none
  else appendLoop b nr es size.toNat s

/-- The zone behind a reset on the device. -/
def devReset (s : Pointers g) (nr : Nat) (offline : Bool) : Nat → DevZone :=
  Function.update s.dev nr { wp := nr * g.zoneSz, cond := if offline then .offline else .usable }

/-- `max_capacity` behind a reset. -/
def resetCapacity (g : ZoneGeometry) : ZbdBackendType → Nat → Nat
  | .blockDev, nr => g.capacity nr
  | .zoneFS, _ => g.zoneSz

/-- The text of a reset or finish that fails. -/
def failedText (what errno : String) : ZbdBackendType → String
  | .blockDev => what ++ " failed\n"
  | .zoneFS => what ++ " failed: " ++ errno

/-- The status of a reset whose report fails. -/
def reportStatus (s : Pointers g) (nr : Nat) (errno : String) : ZbdBackendType → Status
  | .blockDev => .ioError "Zone report failed\n"
  | .zoneFS => .invalidArgument ("Failed to access zonefs sequential zone " ++
      ZoneFsBackend.lbaToZoneFile g s.mountpoint (s.zones nr).start ++ ": " ++ errno)

/-- `Zone::Reset`. -/
def reset (b : ZbdBackendType) (nr : Nat) (e : ResetEnv) (s : Pointers g) : Pointers g × Status :=
  match e with
  | .failed errno => (s, .ioError (failedText "Zone reset" errno b))
  | .reportFailed offline errno =>
      ({ s with dev := s.devReset nr offline }, s.reportStatus nr errno b)
  | .done offline =>
      let z := s.zones nr
      ({ s with
          dev := s.devReset nr offline
          zones := Function.update s.zones nr
            { z with
              capacity := if offline then 0 else resetCapacity g b nr
              maxCapacity := if offline then z.maxCapacity else resetCapacity g b nr
              wp := z.start
              resetCount := z.resetCount + 1 } }, .ok)

/-- `Zone::Finish`. -/
def finish (b : ZbdBackendType) (nr : Nat) (error : Option String) (s : Pointers g) :
    Pointers g × Status :=
  match error with
  | some errno => (s, .ioError (failedText "Zone finish" errno b))
  | none =>
      let z := s.zones nr
      ({ s with
          dev := Function.update s.dev nr { wp := nr * g.zoneSz + g.zoneSz, cond := .finished }
          zones := Function.update s.zones nr
            { z with capacity := 0, wp := z.start + g.zoneSz, finishCount := z.finishCount + 1 } },
            .ok)

/-- A call on zone `nr`. -/
inductive Call where
  | append (nr : Nat) (size : UInt32) (es : List WriteEnv)
  | reset (nr : Nat) (e : ResetEnv)
  | finish (nr : Nat) (error : Option String)

def step (b : ZbdBackendType) (s : Pointers g) : Call → Option (Pointers g)
  | .append nr size es => (append b nr size es s).map Prod.fst
  | .reset nr e => some (reset b nr e s).1
  | .finish nr error => some (finish b nr error s).1

/-- A zone as `ListZones` reports it.  Only what is writable ends inside of its capacity: a
zone that has been finished ends with the zone, and the write pointer of one that is
offline means nothing. -/
structure ReportedZone (g : ZoneGeometry) (nr : Nat) where
  written : Nat
  cond : DevCond := .usable
  writable : Bool := true
  written_le : writable = true → written ≤ g.capacity nr

/-- The constructor of `Zone`. -/
def openedZone (nr : Nat) (r : ReportedZone g nr) : Zone where
  start := nr * g.zoneSz
  maxCapacity := g.capacity nr
  capacity := if r.writable then g.capacity nr - r.written else 0
  wp := nr * g.zoneSz + r.written
  usedCapacity := 0
  busy := false
  resetCount := 0
  finishCount := 0

/-- The state behind `Open`. -/
def opened (mountpoint : String) (readonly : Bool) (reported : (nr : Nat) → ReportedZone g nr) :
    Pointers g where
  mountpoint := mountpoint
  readonly := readonly
  zones nr := openedZone nr (reported nr)
  dev nr := { wp := nr * g.zoneSz + (reported nr).written, cond := (reported nr).cond }

/-- Whether a call leaves the device where the zone is: no `Write` of the `zonefs` backend
fails behind data that it has written, and no zone that is written to is reset without a
report of it. -/
def keeps (s : Pointers g) : Call → Prop
  | .append _ _ es => ∀ e ∈ es, .failed ∉ e.pwrites.tail
  | .reset nr (.reportFailed offline _) => offline = true ∨ (s.zones nr).isEmpty = true
  | _ => True

instance (s : Pointers g) (c : Call) : Decidable (s.keeps c) := by
  unfold keeps
  split <;> infer_instance

/-! ## A backend write -/

theorem devWrote_zero (dev : Nat → DevZone) (nr : Nat) :
    devWrote dev nr 0 = dev := Function.update_eq_self nr dev

theorem devWrote_devWrote (dev : Nat → DevZone) (nr m n : Nat) :
    devWrote (devWrote dev nr m) nr n = devWrote dev nr (m + n) := by
  simp [devWrote, Nat.add_assoc]

theorem transferred_le {n : Nat} {count : Int} (h : 0 ≤ count) :
    (transferred n count : Int) ≤ count := by
  simp only [transferred]
  omega

/-- A system call fails without a trace, or writes a first part of what it is asked to. -/
theorem pwrite_cases (dev : Nat → DevZone) (nr pos : Nat) (count : Int) (p : Pwrite) :
    pwrite dev nr pos count p = (-1, dev) ∨
      ∃ k : Nat, (k : Int) ≤ count ∧ (dev nr).cond = .usable ∧ pos = (dev nr).wp ∧
        pwrite dev nr pos count p = ((k : Int), devWrote dev nr k) := by
  cases p with
  | failed => exact .inl rfl
  | wrote n =>
      rw [pwrite]
      split
      · rename_i h
        exact .inr ⟨transferred n count, transferred_le h.1, h.2.1, h.2.2, rfl⟩
      · exact .inl rfl

/-- The device takes what is written at its write pointer. -/
theorem pwrite_wrote {dev : Nat → DevZone} {nr pos n : Nat} {count : Int} (hcount : 0 ≤ count)
    (husable : (dev nr).cond = .usable) (hpos : pos = (dev nr).wp) :
    ∃ k : Nat, (k : Int) ≤ count ∧ pwrite dev nr pos count (.wrote n) =
    ((k : Int), devWrote dev nr k) :=
  ⟨transferred n count, transferred_le hcount, if_pos ⟨hcount, husable, hpos⟩⟩

/-- Once the loop of the `zonefs` backend is at the write pointer of the device, it stays
there until a system call fails. -/
theorem writeLoop_accepted {nr : Nat} {ps : List Pwrite} {w : Int} {offset : Nat}
    {written ret : Int} {dev dev' : Nat → DevZone} (hw : 0 ≤ w) (husable : (dev nr).cond = .usable)
    (hpos : nr * g.zoneSz + offset = (dev nr).wp) (hps : .failed ∉ ps)
    (h : ZoneFsBackend.writeLoop g nr ps w offset written dev = some (ret, dev')) :
    ∃ k : Nat, (k : Int) ≤ w ∧ ret = written + k ∧ dev' = devWrote dev nr k := by
  induction ps generalizing w offset written dev with
  | nil =>
      simp only [ZoneFsBackend.writeLoop, Option.ite_none_right_eq_some, Option.some.injEq,
        Prod.mk.injEq] at h
      obtain ⟨rfl, rfl, rfl⟩ := h
      exact ⟨0, Int.le_refl 0, by simp, (devWrote_zero ..).symm⟩
  | cons p ps ih =>
      rw [List.mem_cons, not_or] at hps
      cases p with
      | failed => exact absurd rfl hps.1
      | wrote n =>
          obtain ⟨k, hk, hp⟩ := pwrite_wrote (n := n) hw husable hpos
          simp only [ZoneFsBackend.writeLoop, hp] at h
          split at h
          · cases h
          · split at h
            · have hwp : ((devWrote dev nr k) nr).wp = (dev nr).wp + k := by simp [devWrote]
              have hcond : ((devWrote dev nr k) nr).cond = .usable := by
                simpa [devWrote] using husable
              obtain ⟨m, hm, rfl, rfl⟩ := ih (by omega) hcond (by rw [hwp]; omega) hps.2 h
              exact ⟨k + m, by omega, by omega, devWrote_devWrote ..⟩
            · split at h
              · rename_i hpos' _
                obtain rfl : k = 0 := by omega
                simp only [Int.ofNat_zero, Int.lt_irrefl, if_false, Option.some.injEq,
                  Prod.mk.injEq] at h
                obtain ⟨rfl, rfl⟩ := h
                exact ⟨0, by omega, by simp, rfl⟩
              · cases h

/-- Unless a system call fails behind one that has written something, the loop reports
how far it has got. -/
theorem writeLoop_spec {nr : Nat} {ps : List Pwrite} {w : Int} {offset : Nat} {ret : Int}
    {dev dev' : Nat → DevZone} (hps : .failed ∉ ps.tail)
    (h : ZoneFsBackend.writeLoop g nr ps w offset 0 dev = some (ret, dev')) :
    (ret < 0 ∧ dev' = dev) ∨ ∃ k : Nat, (k : Int) ≤ w ∧ ret = k ∧ dev' = devWrote dev nr k := by
  cases ps with
  | nil =>
      simp only [ZoneFsBackend.writeLoop, Option.ite_none_right_eq_some, Option.some.injEq,
        Prod.mk.injEq] at h
      obtain ⟨rfl, rfl, rfl⟩ := h
      exact .inr ⟨0, Int.le_refl 0, rfl, (devWrote_zero ..).symm⟩
  | cons p ps =>
      rcases pwrite_cases dev nr (nr * g.zoneSz + offset) w p with hp | ⟨k, hk, husable, hpos, hp⟩
      · simp only [ZoneFsBackend.writeLoop, hp] at h
        split at h
        · cases h
        · simp only [show ¬(0 : Int) < -1 by decide, show (-1 : Int) < 0 by decide,
            if_false, if_true, Option.ite_none_right_eq_some, Option.some.injEq, Prod.mk.injEq] at h
          obtain ⟨-, rfl, rfl⟩ := h
          exact .inl ⟨by decide, rfl⟩
      · simp only [ZoneFsBackend.writeLoop, hp] at h
        split at h
        · cases h
        · split at h
          · -- the first system call has written, so the others are at the write pointer
            have hwp : ((devWrote dev nr k) nr).wp = (dev nr).wp + k := by simp [devWrote]
            have hcond : ((devWrote dev nr k) nr).cond = .usable := by
              simpa [devWrote] using husable
            obtain ⟨m, hm, rfl, rfl⟩ :=
              writeLoop_accepted (by omega) hcond (by rw [hwp]; omega) hps h
            exact .inr ⟨k + m, by omega, by omega, devWrote_devWrote ..⟩
          · rename_i hzero
            obtain rfl : k = 0 := by omega
            simp only [Int.ofNat_zero, Int.lt_irrefl, if_false, Option.ite_none_right_eq_some,
              Option.some.injEq, Prod.mk.injEq] at h
            obtain ⟨-, rfl, rfl⟩ := h
            exact .inr ⟨0, by omega, rfl, rfl⟩

theorem toInt32_le (n : Nat) : toInt32 n ≤ n := by
  unfold toInt32
  split <;> omega

/-- Either backend fails without a trace, or tells how much of the data the zone has
taken. -/
theorem write_spec {s : Pointers g} {b : ZbdBackendType} {e : WriteEnv}
    {nr size pos : Nat} {ret : Int}
    {dev' : Nat → DevZone} (he : .failed ∉ e.pwrites.tail) (hnr : pos / g.zoneSz = nr)
    (h : s.write b e size pos = some (ret, dev')) :
    (ret < 0 ∧ dev' = s.dev) ∨ ∃ k ≤ size, ret = k ∧ dev' = devWrote s.dev nr k := by
  cases b with
  | blockDev =>
      simp only [write, ZbdlibBackend.write] at h
      split at h
      · rename_i p _
        rw [hnr, Option.some.injEq] at h
        rcases pwrite_cases s.dev nr pos size p with hp | ⟨k, hk, -, -, hp⟩
        · rw [hp, Prod.mk.injEq] at h
          exact .inl ⟨by omega, h.2.symm⟩
        · rw [hp, Prod.mk.injEq] at h
          exact .inr ⟨k, by omega, h.1.symm, h.2.symm⟩
      · cases h
  | zoneFS =>
      simp only [write, ZoneFsBackend.write, hnr] at h
      split at h
      · simp only [Option.ite_none_right_eq_some, Option.some.injEq, Prod.mk.injEq] at h
        exact .inl ⟨by omega, h.2.2.symm⟩
      · rcases writeLoop_spec he h with hfail | ⟨k, hk, hret, hdev⟩
        · exact .inl hfail
        · have hle := Int.le_trans hk (toInt32_le _)
          exact .inr ⟨k, by omega, hret, hdev⟩

/-- A size that is not an `int` is taken for a negative one by the `zonefs` backend. -/
theorem write_large {readonly : Bool} {dev dev' : Nat → DevZone} {e : WriteEnv}
    {size pos : Nat} {ret : Int} (hge : 2 ^ 31 ≤ size) (hlt : size < 2 ^ 32)
    (hroom : size ≤ g.zoneSz - (pos - pos / g.zoneSz * g.zoneSz))
    (h : ZoneFsBackend.write g readonly dev e size pos = some (ret, dev')) :
    ret < 0 ∧ dev' = dev := by
  have hneg : toInt32 size < 0 := by
    rw [toInt32, if_neg (Nat.not_lt.mpr hge)]
    omega
  simp only [ZoneFsBackend.write, Nat.min_eq_left hroom] at h
  split at h
  · simp only [Option.ite_none_right_eq_some, Option.some.injEq, Prod.mk.injEq] at h
    exact ⟨by omega, h.2.2.symm⟩
  · cases hps : e.pwrites with
    | nil =>
        simp only [hps, ZoneFsBackend.writeLoop, Option.ite_none_right_eq_some] at h
        omega
    | cons p ps =>
        rcases pwrite_cases dev (pos / g.zoneSz)
          (pos / g.zoneSz * g.zoneSz + (pos - pos / g.zoneSz * g.zoneSz)) (toInt32 size) p with
          hp | ⟨k, hk, -⟩
        · simp only [hps, ZoneFsBackend.writeLoop, hp, if_neg (Int.ne_of_lt hneg),
            show ¬(0 : Int) < -1 by decide, show (-1 : Int) < 0 by decide, if_false, if_true,
            Option.ite_none_right_eq_some, Option.some.injEq, Prod.mk.injEq] at h
          exact ⟨by omega, h.2.2.symm⟩
        · omega

/-! ## The calls -/

/-- The zones lie one behind the other, what is left of a zone is inside of it, and its
write pointer is that of the device. -/
structure Tracks (s : Pointers g) : Prop where
  start : ∀ nr, (s.zones nr).start = nr * g.zoneSz
  room : ∀ nr, 0 < (s.zones nr).capacity → nr * g.zoneSz ≤ (s.zones nr).wp ∧
    (s.zones nr).wp + (s.zones nr).capacity ≤ nr * g.zoneSz + g.zoneSz
  wp : ∀ nr, (s.dev nr).cond = .usable → (s.zones nr).wp = (s.dev nr).wp

namespace Tracks

variable {s s' : Pointers g} {b : ZbdBackendType} {nr : Nat}

theorem opened (mountpoint : String) (readonly : Bool) (reported : (nr : Nat) → ReportedZone g nr) :
    Tracks (opened mountpoint readonly reported) where
  start _ := rfl
  room nr := by
    have hle := g.capacity_le nr
    have hwritten := (reported nr).written_le
    simp only [Pointers.opened, openedZone]
    split
    · rename_i hw
      have := hwritten hw
      omega
    · exact fun h ↦ absurd h (Nat.lt_irrefl 0)
  wp _ _ := rfl

/-- A zone is changed in memory and on the device. -/
theorem update (h : Tracks s) {z : Zone} {d : DevZone} (hstart : z.start = (s.zones nr).start)
    (hroom : 0 < z.capacity → nr * g.zoneSz ≤ z.wp ∧ z.wp + z.capacity ≤ nr * g.zoneSz + g.zoneSz)
    (hwp : d.cond = .usable → z.wp = d.wp) :
    Tracks (g := g) { s with
      zones := Function.update s.zones nr z, dev := Function.update s.dev nr d } := by
  constructor <;> intro i <;> by_cases hi : i = nr
  · subst hi
    simpa using hstart.trans (h.start i)
  · simpa [hi] using h.start i
  · subst hi
    simpa using hroom
  · simpa [hi] using h.room i
  · subst hi
    simpa using hwp
  · simpa [hi] using h.wp i

/-- A write goes on in its zone. -/
theorem advance (h : Tracks s) {k : Nat} (hk : k ≤ (s.zones nr).capacity) :
    Tracks (advance (g := g) { s with dev := devWrote s.dev nr k } nr k) := by
  have hroom := h.room nr
  refine h.update rfl (fun hleft ↦ ?_) fun hu ↦ ?_
  · have hleft : 0 < (s.zones nr).capacity - k := hleft
    show nr * g.zoneSz ≤ (s.zones nr).wp + k ∧ (s.zones nr).wp + k + ((s.zones nr).capacity - k) ≤ _
    omega
  · show (s.zones nr).wp + k = (s.dev nr).wp + k
    rw [h.wp nr hu]

/-- A zone with space left is the one that its write pointer lies in. -/
theorem zoneNr (h : Tracks s) (hcap : 0 < (s.zones nr).capacity) :
    (s.zones nr).wp / g.zoneSz = nr := by
  have hroom := h.room nr hcap
  rw [Nat.div_eq_iff g.zoneSz_pos]
  constructor <;> omega

theorem appendLoop (h : Tracks s) {es : List WriteEnv} {left : Nat} {st : Status}
    (hle : left ≤ (s.zones nr).capacity) (hes : ∀ e ∈ es, .failed ∉ e.pwrites.tail)
    (hs : appendLoop b nr es left s = some (s', st)) : Tracks s' := by
  induction es generalizing s left with
  | nil =>
      simp only [Pointers.appendLoop, Option.ite_none_right_eq_some, Option.some.injEq,
        Prod.mk.injEq] at hs
      obtain ⟨-, rfl, -⟩ := hs
      exact h
  | cons e es ih =>
      simp only [Pointers.appendLoop] at hs
      split at hs
      · cases hs
      · rename_i hleft
        split at hs
        · cases hs
        · rename_i ret dev hwrite
          have hnr : (s.zones nr).wp / g.zoneSz = nr := h.zoneNr (by omega)
          rcases write_spec (hes e (List.mem_cons_self ..)) hnr hwrite with ⟨hret, rfl⟩ |
            ⟨k, hk, rfl, rfl⟩
          · rw [if_pos hret] at hs
            simp only [Option.ite_none_right_eq_some, Option.some.injEq, Prod.mk.injEq] at hs
            obtain ⟨-, rfl, -⟩ := hs
            exact h
          · rw [if_neg (by omega), Int.toNat_natCast] at hs
            refine ih (h.advance (by omega)) ?_ (fun e he ↦ hes e (List.mem_cons_of_mem _ he)) hs
            simp only [Pointers.advance, Function.update_self]
            omega

theorem append (h : Tracks s) {size : UInt32} {es : List WriteEnv} {st : Status}
    (hes : ∀ e ∈ es, .failed ∉ e.pwrites.tail) (hs : append b nr size es s = some (s', st)) :
    Tracks s' := by
  unfold Pointers.append at hs
  split at hs
  · simp only [Option.ite_none_right_eq_some, Option.some.injEq, Prod.mk.injEq] at hs
    obtain ⟨-, rfl, -⟩ := hs
    exact h
  · rename_i hcap
    exact h.appendLoop (Nat.le_of_not_lt hcap) hes hs

theorem reset (h : Tracks s) {e : ResetEnv} (hok : s.keeps (.reset nr e)) :
    Tracks (reset b nr e s).1 := by
  have hstart := h.start nr
  cases e with
  | failed errno => exact h
  | reportFailed offline errno =>
      have hsame : Tracks (g := g) { s with
          zones := Function.update s.zones nr (s.zones nr)
          dev := s.devReset nr offline } := by
        refine h.update rfl (h.room nr) fun hu ↦ ?_
        rcases hok with rfl | hempty
        · cases hu
        · simp only [Zone.isEmpty, beq_iff_eq] at hempty
          rw [hempty, hstart]
      rwa [Function.update_eq_self] at hsame
  | done offline =>
      have hcap : resetCapacity g b nr ≤ g.zoneSz := by
        cases b with
        | blockDev => exact g.capacity_le nr
        | zoneFS => exact Nat.le_refl _
      refine h.update rfl (fun _ ↦ ⟨Nat.le_of_eq hstart.symm, ?_⟩) fun _ ↦ hstart
      show (s.zones nr).start + (if offline then 0 else resetCapacity g b nr) ≤ _
      split <;> omega

theorem finish (h : Tracks s) {error : Option String} : Tracks (finish b nr error s).1 := by
  cases error with
  | some errno => exact h
  | none => exact h.update rfl (fun hleft ↦ absurd hleft (Nat.lt_irrefl 0)) nofun

theorem step (h : Tracks s) {c : Call} (hok : s.keeps c) (hs : s.step b c = some s') :
    Tracks s' := by
  cases c with
  | append nr size es =>
      simp only [Pointers.step, Option.map_eq_some_iff] at hs
      obtain ⟨⟨s₁, st⟩, hs, rfl⟩ := hs
      exact h.append hok hs
  | reset nr e =>
      obtain rfl := Option.some.inj hs
      exact h.reset hok
  | finish nr error =>
      obtain rfl := Option.some.inj hs
      exact h.finish

end Tracks

/-- In every sequence of appends, finishes and resets in which no `zonefs` write fails
behind data that it has written and no zone that is written to is reset without a
report of it, a zone that is neither finished nor offline has the write pointer of the
device behind each call. -/
theorem wp_tracks_device {b : ZbdBackendType} {mountpoint : String} {readonly : Bool}
    {reported : (nr : Nat) → ReportedZone g nr} {s : Pointers g}
    (hr : Reach (step b) keeps (opened mountpoint readonly reported) s) (nr : Nat)
    (hu : (s.dev nr).cond = .usable) : (s.zones nr).wp = (s.dev nr).wp := by
  have h : Tracks s := hr.invariant (.opened ..) fun h hok hs ↦ h.step hok hs
  exact h.wp nr hu

/-- Zones of four blocks. -/
def fourBlocks : ZoneGeometry where
  zoneSz := 16384
  capacity _ := 16384
  zoneSz_pos := by decide
  capacity_le _ := Nat.le_refl _

/-- A device that nothing is written to. -/
def blank : Pointers fourBlocks := opened "/mnt/zonefs" false fun _ ↦
    ⟨0, .usable, true, fun _ ↦ Nat.zero_le _⟩

/-- Two blocks are appended, of which the first system call writes one; then the zone is
written to the end, finished and reset. -/
def shortWrites : List Call :=
  [.append 1 8192 [{ pwrites := [.wrote 4096, .wrote 4096] }],
    .append 1 4096 [{ pwrites := [.failed] }], .append 1 8192 [{ pwrites := [.wrote 8192] }],
    .finish 1 none, .reset 1 (.done false)]

/-- Behind them the zone is at its start, as it is on the device. -/
theorem wp_tracks_device_shortWrites :
    ∃ s, Reach (step .zoneFS) keeps blank s ∧ (s.dev 1).cond = .usable ∧
      (s.zones 1).resetCount = 1 ∧ (s.zones 1).wp = (s.dev 1).wp := by
  have hrun : ∃ s ∈ runAll (fun s c ↦ if decide (s.keeps c) then step .zoneFS s c else none)
      blank shortWrites, (s.dev 1).cond = .usable ∧ (s.zones 1).resetCount = 1 := by
    decide +kernel
  obtain ⟨s, hs, hu, hone⟩ := hrun
  have hr := Reach.of_decided hs
  exact ⟨s, hr, hu, hone, wp_tracks_device hr 1 hu⟩

/-- A write of the `zonefs` backend that fails behind its first block, and a reset whose
report fails on the other backend: the device has moved, the zone has not. -/
theorem wp_lost :
    (∃ s, Reach (step .zoneFS) (fun _ _ ↦ True) blank s ∧ (s.dev 1).cond = .usable ∧
      (s.zones 1).wp = 16384 ∧ (s.dev 1).wp = 20480) ∧
    ∃ s, Reach (step .blockDev) (fun _ _ ↦ True) blank s ∧ (s.dev 1).cond = .usable ∧
      (s.zones 1).wp = 20480 ∧ (s.dev 1).wp = 16384 := by
  have hwrite :
    ∃ s ∈ runAll (step .zoneFS) blank [.append 1 8192 [{ pwrites := [.wrote 4096, .failed] }]],
      (s.dev 1).cond = .usable ∧ (s.zones 1).wp = 16384 ∧ (s.dev 1).wp = 20480 := by
    decide +kernel
  have hreset : ∃ s ∈ runAll (step .blockDev) blank
      [.append 1 4096 [{ pwrites := [.wrote 4096] }], .reset 1 (.reportFailed false "")],
      (s.dev 1).cond = .usable ∧ (s.zones 1).wp = 20480 ∧ (s.dev 1).wp = 16384 := by
    decide +kernel
  obtain ⟨s, hs, h⟩ := hwrite
  obtain ⟨t, ht, h'⟩ := hreset
  exact ⟨⟨s, Reach.of_any hs, h⟩, t, Reach.of_any ht, h'⟩

end Pointers

end ZenFs
