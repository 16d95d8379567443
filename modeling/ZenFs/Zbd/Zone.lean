import ZenFs.Basic
import ZenFs.Lib.Mem
import Mathlib.Logic.Function.Basic

/-!
# Zones and the zoned block device

`Zone` is the in-memory object of an IO zone and `Zbd` the part of
`ZonedBlockDevice` that the files see: the zone table, and behind it the bytes
of the device.  The zone operations take what the backend does as an argument,
so that every outcome of the system calls is covered.
-/

namespace ZenFs

/-- The fields of a `Zone` that space management works on.  `usedCapacity` is the exact
count, of which `used_capacity_` holds 64 bits. -/
structure Zone where
  start : Nat
  maxCapacity : Nat
  capacity : Nat
  wp : Nat
  usedCapacity : Nat
  busy : Bool
  resetCount : Nat
  finishCount : Nat
deriving DecidableEq, Repr, Inhabited

namespace Zone

/-- The zone with the counter as it is in memory. -/
def stored (z : Zone) : Zone := { z with usedCapacity := z.usedCapacity % 2 ^ 64 }

/-- `Zone::IsUsed`. -/
def isUsed (z : Zone) : Bool := decide (0 < z.usedCapacity)

theorem isUsed_of_stored {z : Zone} (h : z.stored.isUsed = true) : z.isUsed = true := by
  have hpos : 0 < z.usedCapacity % 2 ^ 64 := of_decide_eq_true h
  exact decide_eq_true (Nat.pos_of_ne_zero fun h0 ↦ by simp [h0] at hpos)

theorem stored_eq {z : Zone} (h : z.usedCapacity < 2 ^ 64) : z.stored = z := by
  rw [stored, Nat.mod_eq_of_lt h]

/-- `Zone::IsFull`. -/
def isFull (z : Zone) : Bool := z.capacity == 0

/-- `Zone::IsEmpty`. -/
def isEmpty (z : Zone) : Bool := z.wp == z.start

end Zone

/-- A `ZonedBlockDevice`: the geometry, `io_zones`, and the bytes of the device.
`wrapped` is not in the source: it tells whether a subtraction from a space
counter has ever gone below zero. -/
structure Zbd where
  blockSize : Nat
  zoneSize : Nat
  nrZones : Nat
  zones : ZoneId → Zone
  mem : Mem Byte
  wrapped : Bool := false

namespace Zbd

/-- Replace the object of zone `i`. -/
def setZone (d : Zbd) (i : ZoneId) (z : Zone) : Zbd :=
  { d with zones := Function.update d.zones i z }

/-- The zone table with the counters as they are in memory. -/
def stored (d : Zbd) : Zbd := { d with zones := fun i ↦ (d.zones i).stored }

/-- `zone->used_capacity_ += n`, on the exact count. -/
def addUsed (d : Zbd) (i : ZoneId) (n : Nat) : Zbd :=
  d.setZone i { d.zones i with usedCapacity := (d.zones i).usedCapacity + n }

/-- `zone->used_capacity_ -= n` on an unsigned 64-bit counter. -/
def subUsed (d : Zbd) (i : ZoneId) (n : Nat) : Zbd :=
  { d.setZone i
      { d.zones i with
        usedCapacity :=
          if n ≤ (d.zones i).usedCapacity then (d.zones i).usedCapacity - n
          else (d.zones i).usedCapacity + 2 ^ 64 - n } with
    wrapped := d.wrapped || decide ((d.zones i).usedCapacity < n) }

/-- `ZonedBlockDevice::GetIOZone`: the first zone whose range holds the offset. -/
def getIOZone (d : Zbd) (offset : Nat) : Option ZoneId :=
  (List.range d.nrZones).find? fun i ↦
    decide ((d.zones i).start ≤ offset ∧ offset < (d.zones i).start + d.zoneSize)

section Fields

variable (d : Zbd) (i : ZoneId) (z : Zone) (n : Nat)

@[simp] theorem setZone_blockSize : (d.setZone i z).blockSize = d.blockSize := rfl
@[simp] theorem setZone_zoneSize : (d.setZone i z).zoneSize = d.zoneSize := rfl
@[simp] theorem setZone_nrZones : (d.setZone i z).nrZones = d.nrZones := rfl
@[simp] theorem setZone_mem : (d.setZone i z).mem = d.mem := rfl
@[simp] theorem setZone_zones : (d.setZone i z).zones = Function.update d.zones i z := rfl
@[simp] theorem setZone_wrapped : (d.setZone i z).wrapped = d.wrapped := rfl

@[simp] theorem addUsed_blockSize : (d.addUsed i n).blockSize = d.blockSize := rfl
@[simp] theorem addUsed_zoneSize : (d.addUsed i n).zoneSize = d.zoneSize := rfl
@[simp] theorem addUsed_nrZones : (d.addUsed i n).nrZones = d.nrZones := rfl
@[simp] theorem addUsed_mem : (d.addUsed i n).mem = d.mem := rfl
@[simp] theorem addUsed_wrapped : (d.addUsed i n).wrapped = d.wrapped := rfl

@[simp] theorem subUsed_blockSize : (d.subUsed i n).blockSize = d.blockSize := rfl
@[simp] theorem subUsed_zoneSize : (d.subUsed i n).zoneSize = d.zoneSize := rfl
@[simp] theorem subUsed_nrZones : (d.subUsed i n).nrZones = d.nrZones := rfl
@[simp] theorem subUsed_mem : (d.subUsed i n).mem = d.mem := rfl

end Fields

theorem addUsed_zones (d : Zbd) (i : ZoneId) (n : Nat) (j : ZoneId) :
    (d.addUsed i n).zones j =
      { d.zones j with usedCapacity := (d.zones j).usedCapacity + if j = i then n else 0 } := by
  by_cases h : j = i
  · subst h; simp [addUsed]
  · simp [addUsed, h]

theorem subUsed_zones (d : Zbd) (i : ZoneId) (n : Nat) (j : ZoneId)
    (h : n ≤ (d.zones i).usedCapacity) :
    (d.subUsed i n).zones j =
      { d.zones j with usedCapacity := (d.zones j).usedCapacity - if j = i then n else 0 } := by
  by_cases hj : j = i
  · subst hj; simp [subUsed, h]
  · simp [subUsed, hj]

/-- The zone table without the space counters. -/
def layout (d : Zbd) (j : ZoneId) : Zone := { d.zones j with usedCapacity := 0 }

@[simp] theorem addUsed_layout (d : Zbd) (i : ZoneId) (n : Nat) :
    (d.addUsed i n).layout = d.layout := by
  funext j
  simp [layout, addUsed_zones]

@[simp] theorem subUsed_layout (d : Zbd) (i : ZoneId) (n : Nat) :
    (d.subUsed i n).layout = d.layout := by
  funext j
  by_cases hj : j = i
  · subst hj; simp [layout, subUsed]
  · simp [layout, subUsed, hj]

/-- Which zone an offset belongs to depends on the layout only. -/
theorem getIOZone_congr {d d' : Zbd} (hn : d'.nrZones = d.nrZones) (hz : d'.zoneSize = d.zoneSize)
    (hl : d'.layout = d.layout) (offset : Nat) : d'.getIOZone offset = d.getIOZone offset := by
  have hs : ∀ i, (d'.zones i).start = (d.zones i).start := fun i ↦ by
    simpa [layout] using congrArg Zone.start (congrFun hl i)
  simp only [getIOZone, hn, hz, hs]

@[simp] theorem getIOZone_addUsed (d : Zbd) (i : ZoneId) (n offset : Nat) :
    (d.addUsed i n).getIOZone offset = d.getIOZone offset :=
  getIOZone_congr (d.addUsed_nrZones i n) (d.addUsed_zoneSize i n) (addUsed_layout d i n) offset

@[simp] theorem getIOZone_subUsed (d : Zbd) (i : ZoneId) (n offset : Nat) :
    (d.subUsed i n).getIOZone offset = d.getIOZone offset :=
  getIOZone_congr (d.subUsed_nrZones i n) (d.subUsed_zoneSize i n) (subUsed_layout d i n) offset

end Zbd

/-! ## Operations on one zone -/

/-- What the backend does with a reset: erase the zone and report its
capacity, report it offline, or fail, possibly after erasing it. -/
inductive ResetRes where
  | done (maxCapacity : Nat)
  | offline
  | failed (erased : Bool)
deriving DecidableEq, Repr

/-- One `zbd_be_->Write` inside `Zone::Append`: an error, or a number of bytes
written. -/
inductive WriteCall where
  | failed
  | wrote (n : Nat)
deriving DecidableEq, Repr

namespace Zbd

/-- The device after one backend write of `data` at the write pointer of zone `i`. -/
def appended (d : Zbd) (i : ZoneId) (data : List Byte) : Zbd :=
  { d.setZone i
      { d.zones i with
        wp := (d.zones i).wp + data.length
        capacity := (d.zones i).capacity - data.length } with
    mem := d.mem.write (d.zones i).wp data }

/-- The loop of `Zone::Append`.  `calls` are the results of the backend writes;
when they run out the backend writes all that is left. -/
def appendLoop (i : ZoneId) : List WriteCall → List Byte → Zbd → Zbd × Status
  | _, [], d => (d, .ok)
  | [], data, d => (d.appended i data, .ok)
  | .failed :: _, _ :: _, d => (d, .ioError "Zone append failed")
  | .wrote n :: calls, b :: data, d =>
      appendLoop i calls ((b :: data).drop n) (d.appended i ((b :: data).take n))

/-- `Zone::Append`. -/
def append (d : Zbd) (i : ZoneId) (data : List Byte) (calls : List WriteCall) : Zbd × Status :=
  if (d.zones i).capacity < data.length then
    (d, .noSpace "Not enough capacity for append")
  else appendLoop i calls data d

section Append

variable (d : Zbd) (i : ZoneId)

theorem appended_nil : d.appended i [] = d := by
  simp [appended, setZone]

theorem appended_appended (xs ys : List Byte) :
    (d.appended i xs).appended i ys = d.appended i (xs ++ ys) := by
  simp [appended, setZone, Mem.write_append, Nat.add_assoc, Nat.sub_sub]

@[simp] theorem appended_blockSize (xs : List Byte) :
    (d.appended i xs).blockSize = d.blockSize := rfl
@[simp] theorem appended_zoneSize (xs : List Byte) : (d.appended i xs).zoneSize = d.zoneSize := rfl
@[simp] theorem appended_nrZones (xs : List Byte) : (d.appended i xs).nrZones = d.nrZones := rfl
@[simp] theorem appended_wrapped (xs : List Byte) : (d.appended i xs).wrapped = d.wrapped := rfl
@[simp] theorem appended_mem (xs : List Byte) :
    (d.appended i xs).mem = d.mem.write (d.zones i).wp xs := rfl

theorem appended_zones (xs : List Byte) (j : ZoneId) :
    (d.appended i xs).zones j =
      if j = i then
        { d.zones i with
          wp := (d.zones i).wp + xs.length
          capacity := (d.zones i).capacity - xs.length }
      else d.zones j := by
  split
  · rename_i h
    subst h
    simp [appended]
  · rename_i h
    simp [appended, h]

/-- Whatever the backend does, a first part of the data arrives, and all of it if
the append succeeds. -/
theorem appendLoop_spec (calls : List WriteCall) (data : List Byte) :
    ∃ n ≤ data.length, (appendLoop i calls data d).1 = d.appended i (data.take n) ∧
      ((appendLoop i calls data d).2 = .ok → n = data.length) := by
  induction calls generalizing d data with
  | nil =>
      refine ⟨data.length, Nat.le_refl _, ?_, fun _ ↦ rfl⟩
      cases data with
      | nil => simp [appendLoop, appended_nil]
      | cons b data => simp [appendLoop]
  | cons call calls ih =>
      cases data with
      | nil => exact ⟨0, Nat.le_refl _, by simp [appendLoop, appended_nil], fun _ ↦ rfl⟩
      | cons b data =>
          cases call with
          | failed => exact ⟨0,
              Nat.zero_le _, by simp [appendLoop, appended_nil], by simp [appendLoop]⟩
          | wrote k =>
              obtain ⟨n, hn, h₁, h₂⟩ := ih (d.appended i ((b :: data).take k)) ((b :: data).drop k)
              rw [List.length_drop] at hn h₂
              refine ⟨min k (b :: data).length + n, by omega, ?_, fun h ↦ ?_⟩
              · rw [appendLoop, h₁, appended_appended]
                congr 1
                rcases Nat.le_total k (b :: data).length with hk | hk
                · rw [Nat.min_eq_left hk, List.take_add]
                · rw [Nat.min_eq_right hk, List.drop_of_length_le hk, List.take_of_length_le hk,
                    List.take_of_length_le (Nat.le_add_right _ _)]
                  simp
              · have := h₂ h
                omega

theorem append_spec (data : List Byte) (calls : List WriteCall) :
    ∃ n ≤ data.length, (d.append i data calls).1 = d.appended i (data.take n) ∧
      n ≤ (d.zones i).capacity ∧
      ((d.append i data calls).2 = .ok → n = data.length ∧ data.length ≤ (d.zones i).capacity) := by
  unfold append
  split
  · exact ⟨0, Nat.zero_le _, by simp [appended_nil], Nat.zero_le _, by simp⟩
  · rename_i hcap
    obtain ⟨n, hn, h₁, h₂⟩ := d.appendLoop_spec i calls data
    exact ⟨n, hn, h₁, by omega, fun h ↦ ⟨h₂ h, by omega⟩⟩

/-- As long as no backend write fails, the loop goes on until everything is written. -/
theorem appendLoop_snd {calls : List WriteCall} (h : .failed ∉ calls) (data : List Byte) :
    (appendLoop i calls data d).2 = .ok := by
  induction calls generalizing d data with
  | nil => cases data <;> rfl
  | cons call calls ih =>
      rw [List.mem_cons, not_or] at h
      cases data with
      | nil => rfl
      | cons b data =>
          cases call with
          | failed => exact absurd rfl h.1
          | wrote n => exact ih _ h.2 _

theorem append_of_notMem {data : List Byte} {calls : List WriteCall} (h : .failed ∉ calls)
    (hcap : data.length ≤ (d.zones i).capacity) :
    d.append i data calls = (d.appended i data, .ok) := by
  have hok : (d.append i data calls).2 = .ok := by
    rw [append, if_neg (by omega)]
    exact d.appendLoop_snd i h data
  obtain ⟨n, -, hfst, -, hn⟩ := d.append_spec i data calls
  obtain ⟨rfl, -⟩ := hn hok
  rw [List.take_length] at hfst
  exact Prod.ext hfst hok

end Append

/-- The bytes of zone `i`, once erased, read as zeros. -/
def erase (d : Zbd) (i : ZoneId) : Mem Byte := d.mem.fill (d.zones i).start d.zoneSize 0

/-- `Zone::Reset`. -/
def reset (d : Zbd) (i : ZoneId) (res : ResetRes) : Zbd × Status :=
  let z := d.zones i
  match res with
  | .done c =>
      ({ d.setZone i
          { z with maxCapacity := c, capacity := c, wp := z.start,
                   resetCount := z.resetCount + 1 } with
          mem := d.erase i }, .ok)
  | .offline =>
      ({ d.setZone i { z with capacity := 0, wp := z.start, resetCount := z.resetCount + 1 } with
          mem := d.erase i }, .ok)
  | .failed erased =>
      (if erased then { d with mem := d.erase i } else d, .ioError "Zone reset failed")

/-- `Zone::Finish` on a backend that carries it out. -/
def finish (d : Zbd) (i : ZoneId) : Zbd :=
  let z := d.zones i
  d.setZone i
    { z with capacity := 0, wp := z.start + d.zoneSize, finishCount := z.finishCount + 1 }

/-- `Zone::Acquire` and `Zone::Release` on the flag of zone `i`. -/
def setBusy (d : Zbd) (i : ZoneId) (b : Bool) : Zbd := d.setZone i { d.zones i with busy := b }

/-! ## Allocation -/

/-- What `AllocateIOZoneNoLock` decides from lifetimes, levels and keys: the zones
that `ApplyFinishThreshold` and `FinishCheapestIOZone` finish on the way, and the
zone it returns. -/
structure Pick where
  finished : List ZoneId := []
  zone : Option ZoneId := none
deriving DecidableEq, Repr, Inhabited

/-- A zone that may be finished to make room for another open zone. -/
def finishable (d : Zbd) (i : ZoneId) : Bool :=
  decide (i < d.nrZones) && !(d.zones i).busy && !(d.zones i).isEmpty && !(d.zones i).isFull

/-- A zone that the policies may return: one that is in use and has space left,
or an empty one.  No policy returns a busy zone. -/
def eligible (d : Zbd) (i : ZoneId) : Bool :=
  decide (i < d.nrZones) && !(d.zones i).busy &&
    (((d.zones i).isUsed && !(d.zones i).isFull) || (d.zones i).isEmpty)

theorem eligible_of_stored {d : Zbd} {i : ZoneId} (h : d.stored.eligible i = true) :
    d.eligible i = true := by
  have hs : d.stored.zones i = (d.zones i).stored := rfl
  simp only [eligible, hs, Bool.and_eq_true, Bool.or_eq_true] at h ⊢
  exact ⟨h.1, h.2.imp (fun hu ↦ ⟨Zone.isUsed_of_stored hu.1, hu.2⟩) id⟩

end Zbd

end ZenFs
