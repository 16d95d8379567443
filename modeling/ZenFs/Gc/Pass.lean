import ZenFs.Alloc.Free
import ZenFs.Alloc.Select
import ZenFs.Gc.Cold
import ZenFs.Gc.Improved
import ZenFs.Lib.Reach

/-!
# A pass of the garbage collector

A pass selects zones from a snapshot and moves their extents, one after the other.  Where an
extent goes is up to the allocator, which looks at the zones as they are by then.  Other
threads write to zones and files in the meantime.
-/

namespace ZenFs

namespace Gc

open Alloc

/-- `GCType`. -/
inductive GCType where
  | kDefaultGC
  | kImprovedGC
deriving DecidableEq, Repr

/-- A `ZoneExtent`. -/
structure ZoneExtent where
  start : Nat
  length : Nat
  zone : ZoneId
  level : Int := -1
deriving DecidableEq, Repr

/-- What a pass reads and writes of a `ZoneFile`. -/
structure DataFile where
  filename : Name
  extents : List ZoneExtent := []
  info : FileInfo := {}
  level : Int := -1
  isSparse : Bool := false
  openForWr : Bool := false
deriving DecidableEq, Repr

/-- A call of `MigrateFileExtents` that holds the lock of its file.  Of the new extents, the
loop has visited `done` and is to visit `rest`; `target` is the zone it has taken for the
first of these. -/
structure Migration where
  fname : Name
  zfile : Ref
  migrateExts : List ZoneExtentSnapshot
  done : List ZoneExtent := []
  rest : List ZoneExtent
  target : Option ZoneId := none
deriving DecidableEq, Repr

/-- The loop leaves an extent where it is. -/
def Migration.leave (m : Migration) : Migration :=
  { m with done := m.done ++ m.rest.take 1, rest := m.rest.drop 1 }

/-- What a pass has selected, which files it is still to look at (in groups, one for each
call of `MigrateExtents`), and the starts of the zones that it has taken. -/
structure Pass where
  selected : List ZoneSnapshot
  groups : List (List (Name × List ZoneExtentSnapshot)) := []
  current : Option Migration := none
  targets : List Nat := []
deriving DecidableEq, Repr

/-- The zones that are selected contain garbage, and none of them has been taken for an
extent. -/
structure Pass.FreesSpace (pass : Pass) : Prop where
  garbage : ∀ zone ∈ pass.selected, zone.hasGarbage = true
  apart : ∀ start ∈ pass.targets, ∀ zone ∈ pass.selected, zone.start ≠ start

/-- The collector, and what it shares with other threads.  The record of the last pass is
kept until the next one begins. -/
structure Collector where
  params : GcParams := {}
  nrZones : Nat
  allocator : Allocator
  files : List (Name × Ref)
  file : Ref → DataFile
  pass : Option Pass := none

/-- `ends_with` for the files whose extents are moved. -/
def endsWithSst (fname : Name) : Bool := ".sst".toList.isSuffixOf fname.toList

/-- The map that `MigrateExtents` makes of the extents it is given. -/
def fileExtents (extents : List ZoneExtentSnapshot) : List (Name × List ZoneExtentSnapshot) :=
  (((extents.map (·.filename)).filter endsWithSst).dedup.insertionSort (· ≤ ·)).map fun fname ↦
    (fname, extents.filter (·.filename == fname))

/-- `migrate_ext_list`: the extents of each zone that is selected, in the order of the
starts. -/
def migrateExtList (snapshot : ZenFSSnapshot) (selected : List ZoneSnapshot) :
    List (List ZoneExtentSnapshot) :=
  (((selected.map (·.start)).dedup.insertionSort (· ≤ ·)).map fun zone_start ↦
    snapshot.extents.filter (·.zoneStart == zone_start)).filter (· ≠ [])

/-- The snapshot of a zone.  Its constructor divides by `max_capacity`, which has 64 bits. -/
def zoneSnapshot (z : IoZone) : Option ZoneSnapshot :=
  if h : 0 < z.maxCapacity ∧ z.maxCapacity < 2 ^ 64 then
    some
      { start := z.start
        capacity := z.capacity
        usedCapacity := z.usedCapacity
        maxCapacity := z.maxCapacity
        resetCount := z.resetCount
        maxCapacity_pos := h.1 }
  else none

/-- What a reset makes of a zone; the backend tells the capacity, or that the zone is
offline. -/
def resetZone (z : IoZone) (max_capacity : Option Nat) : IoZone :=
  { z with
    capacity := max_capacity.getD 0
    maxCapacity := max_capacity.getD z.maxCapacity
    wp := z.start
    lifetime := .WLTH_NOT_SET
    resetCount := (z.resetCount + 1) % 2 ^ 32
    level := -1 }

namespace Collector

variable (c : Collector)

/-- The sum of a number of each zone, in 64 bits. -/
def total (f : IoZone → Nat) : Nat :=
  (c.allocator.table.ioZones.map fun i ↦ f (c.allocator.table.zone i)).sum % 2 ^ 64

/-- `GetFreePercent`; dividing by zero is a fault. -/
def getFreePercent : Option Nat :=
  let used := c.total (·.usedCapacity)
  let reclaimable := c.total fun z ↦ if z.isFull then
    toUInt64 (z.maxCapacity - z.usedCapacity) else 0
  let free := c.total (·.capacity)
  let non_free := (used + reclaimable) % 2 ^ 64
  if (free + non_free) % 2 ^ 64 = 0 then none
  else some ((100 * free) % 2 ^ 64 / ((free + non_free) % 2 ^ 64))

/-- `GetZoneSnapshot`. -/
def zoneSnapshots : Option (List ZoneSnapshot) :=
  c.allocator.table.ioZones.mapM fun i ↦ zoneSnapshot (c.allocator.table.zone i)

/-- The extents of a file that `GetZenFSSnapshot` lists, unless it is open for writing. -/
def extentSnapshots (f : DataFile) : List ZoneExtentSnapshot :=
  if f.openForWr then []
  else
    f.extents.map fun ext ↦
      { start := ext.start
        length := ext.length
        zoneStart := (c.allocator.table.zone ext.zone).start
        level := ext.level
        filename := f.filename }

/-- `GetZenFSSnapshot`. -/
def getZenFSSnapshot : Option ZenFSSnapshot :=
  c.zoneSnapshots.map fun zones ↦
    { zones := zones, extents := c.files.flatMap fun file_it ↦
        c.extentSnapshots (c.file file_it.2) }

/-- The zones that a pass selects. -/
def select (gc_type : GCType) (sort : ZoneSort) (free_percent : Nat) (zones : List ZoneSnapshot) :
    List ZoneSnapshot :=
  match gc_type with
  | .kImprovedGC => selectGarbageZonesImproved c.params c.nrZones free_percent (sort.run zones)
  | .kDefaultGC => selectGarbageZonesDefault c.params free_percent zones

/-- The head of the loop of `GCWorker`: a pass begins unless there is enough free space. -/
def startPass (gc_type : GCType) (sort : ZoneSort) : Option Collector :=
  c.getFreePercent.bind fun free_percent ↦
    if c.params.gcStartLevel < free_percent then some c
    else
      c.getZenFSSnapshot.map fun snapshot ↦
        let selected := c.select gc_type sort free_percent snapshot.zones
        { c with
          pass := some
            { selected := selected
              groups := (migrateExtList snapshot selected).map fileExtents } }

/-- A zone with some fields changed. -/
def setZone (i : ZoneId) (f : IoZone → IoZone) : Collector :=
  { c with allocator := c.allocator.setZone i (f (c.allocator.table.zone i)) }

def setFile (r : Ref) (f : DataFile → DataFile) : Collector :=
  { c with file := Function.update c.file r (f (c.file r)) }

def setCurrent (pass : Pass) (current : Option Migration) : Collector :=
  { c with pass := some { pass with current := current } }

/-- `ResetUnusedIOZones`; `reset` tells what the backend does. -/
def resetUnusedIOZones (reset : ZoneId → Option (Option Nat)) :
    List ZoneId → Allocator → Allocator × Status
  | [], a => (a, .ok)
  | i :: is, a =>
      if a.table.busy i then resetUnusedIOZones reset is a
      else
        let a := a.acquire i
        let z := a.table.zone i
        if !z.isEmpty && !z.isUsed then
          match reset i with
          | none => ((a.checkRelease i).1, .ioError "Zone reset failed\n")
          | some max_capacity =>
              match (a.setZone i (resetZone z max_capacity)).checkRelease i with
              | (a, .ok) =>
                  resetUnusedIOZones reset is (if z.isFull then a else a.putActiveIOZoneToken)
              | (a, s) => (a, s)
        else
          match a.checkRelease i with
          | (a, .ok) => resetUnusedIOZones reset is a
          | (a, s) => (a, s)

/-- Behind each file, `MigrateExtents` resets zones, and gives up the group if that fails. -/
def afterFile (pass : Pass) (reset : ZoneId → Option (Option Nat)) : Collector :=
  match resetUnusedIOZones reset c.allocator.table.ioZones c.allocator with
  | (a, .ok) => { c with allocator := a, pass := some pass }
  | (a, _) => { c with allocator := a, pass := some { pass with groups := pass.groups.tail } }

/-- The head of `MigrateFileExtents` for the next file of a group. -/
def nextFile (pass : Pass) (reset : ZoneId → Option (Option Nat)) : Option Collector :=
  match pass.current, pass.groups with
  | none, [] :: groups => some { c with pass := some { pass with groups := groups } }
  | none, ((fname, migrate_exts) :: files) :: groups =>
      let pass := { pass with groups := files :: groups }
      match c.files.lookup fname with
      | none => some (c.afterFile pass reset)
      | some r =>
          if (c.file r).openForWr then some (c.afterFile pass reset)
          else
            some <| (c.setFile r fun f ↦ { f with openForWr := true }).setCurrent pass <| some
              { fname := fname
                zfile := r
                migrateExts := migrate_exts
                rest := (c.file r).extents.map fun ext ↦ { ext with level := (c.file r).level } }
  | _, _ => none

/-- `TakeMigrateZone` for the next extent, if that is to be moved. -/
def takeMigrateZone (pass : Pass) (m : Migration) (finish : ZoneId → Status) (w : Placement)
    (fuel : Nat) : Option Collector :=
  match m.target, m.rest with
  | none, ext :: _ =>
      if m.migrateExts.any fun ext_snapshot ↦ ext_snapshot.start == ext.start &&
        ext_snapshot.length == ext.length then
        let f := c.file m.zfile
        (c.allocator.allocateIOZoneNoLock finish w fuel f.info f.info.ioType f.level
          (ext.length % 2 ^ 32)).map fun r ↦
          let c' := { c.setFile m.zfile fun f ↦ { f with level := r.level } with
            allocator := r.state }
          match r.status, r.zone with
          | .ok, some i =>
              let pass := { pass with
                targets := pass.targets ++ [(c.allocator.table.zone i).start] }
              c'.setCurrent pass (some { m with target := some i })
          | _, _ => c'.setCurrent pass (some m.leave)
      else some (c.setCurrent pass (some m.leave))
  | _, _ => none

/-- `ReleaseMigrateZone`; `closed` is what the backend reports. -/
def releaseMigrateZone (i : ZoneId) (closed : Status) : Collector :=
  let z := c.allocator.table.zone i
  if !(z.isEmpty || z.isFull) && !closed.isOk then c
  else
    match c.allocator.checkRelease i with
    | (a, .ok) =>
        let a := a.putOpenIOZoneToken
        { c with allocator := if z.isFull then a.putActiveIOZoneToken else a }
    | (a, _) => { c with allocator := a }

/-- `MigrateData`, which has appended some bytes when it returns, and what follows it.  Its
status is not looked at. -/
def migrateData (pass : Pass) (m : Migration) (appended : Nat) (closed : Status) :
    Option Collector :=
  match m.target, m.rest with
  | some i, ext :: rest =>
      let z := c.allocator.table.zone i
      if z.capacity < appended then none
      else
        let c := c.setZone i fun z ↦
          { z with wp := z.wp + appended, capacity := z.capacity - appended }
        match c.files.lookup m.fname with
        | none =>
            let m := { m with done := m.done ++ m.rest, rest := [], target := none }
            some ((c.releaseMigrateZone i closed).setCurrent pass (some m))
        | some _ =>
            let target_start := if (c.file m.zfile).isSparse then
              z.wp + SPARSE_HEADER_SIZE else z.wp
            let m :=
              { m with
                done := m.done ++ [{ ext with start := target_start, zone := i }]
                rest := rest
                target := none }
            let c := c.setZone i fun z ↦
              { z with usedCapacity := (z.usedCapacity + ext.length) % 2 ^ 64 }
            some ((c.releaseMigrateZone i closed).setCurrent pass (some m))
  | _, _ => none

/-- The loop of `SyncFileExtents` over the old and the new extents. -/
def clearStats : List (ZoneExtent × ZoneExtent) → Collector → Collector
  | [], c => c
  | (old_ext, new_ext) :: exts, c =>
      clearStats exts <| if old_ext.start = new_ext.start then c else
        c.setZone old_ext.zone fun z ↦
          { z with usedCapacity := toUInt64 (z.usedCapacity - old_ext.length) }

/-- `SyncFileExtents`, and the end of `MigrateFileExtents`.  `synced` tells whether the new
metadata is persisted. -/
def syncFileExtents (pass : Pass) (m : Migration) (synced : Bool)
    (reset : ZoneId → Option (Option Nat)) : Option Collector :=
  match m.target, m.rest with
  | none, [] =>
      let old_extents := (c.file m.zfile).extents
      let c := c.setFile m.zfile fun f ↦ { f with extents := m.done, openForWr := false }
      let c := if synced then clearStats (old_extents.zip m.done) c else c
      some (c.afterFile { pass with current := none } reset)
  | _, _ => none

/-- The steps of the collector, and what other threads do to a zone, to the files and to
the counters. -/
inductive Label where
  | startPass (gc_type : GCType) (sort : ZoneSort)
  | nextFile (reset : ZoneId → Option (Option Nat))
  | takeMigrateZone (finish : ZoneId → Status) (w : Placement) (fuel : Nat)
  | migrateData (appended : Nat) (closed : Status)
  | syncFileExtents (synced : Bool) (reset : ZoneId → Option (Option Nat))
  | zoneChanged (i : ZoneId) (capacity wp usedCapacity : Nat) (busy : Bool)
  | filesChanged (files : List (Name × Ref)) (file : Ref → DataFile)
  | countersChanged (openIoZones activeIoZones : Int) (deferredStatus : Status)

/-- A step; `none` is a fault, or a step that cannot be taken now. -/
def step : Label → Option Collector
  | .startPass gc_type sort =>
      match c.pass with
      | some { current := some _, .. } | some { groups := _ :: _, .. } => none
      | _ => c.startPass gc_type sort
  | .nextFile reset => c.pass.bind fun pass ↦ c.nextFile pass reset
  | .takeMigrateZone finish w fuel =>
      c.pass.bind fun pass ↦ pass.current.bind fun m ↦ c.takeMigrateZone pass m finish w fuel
  | .migrateData appended closed =>
      c.pass.bind fun pass ↦ pass.current.bind fun m ↦ c.migrateData pass m appended closed
  | .syncFileExtents synced reset =>
      c.pass.bind fun pass ↦ pass.current.bind fun m ↦ c.syncFileExtents pass m synced reset
  | .zoneChanged i capacity wp usedCapacity busy =>
      let c := c.setZone i fun z ↦
        { z with capacity := capacity, wp := wp, usedCapacity := usedCapacity }
      some { c with
        allocator := c.allocator.withBusy (Function.update c.allocator.table.busy i busy) }
  | .filesChanged files file => some { c with files := files, file := file }
  | .countersChanged openIoZones activeIoZones deferredStatus =>
      some
        { c with
          allocator :=
            { c.allocator with
              openIoZones := openIoZones
              activeIoZones := activeIoZones
              deferredStatus := deferredStatus } }

def FreesSpace : Prop := ∀ pass ∈ c.pass, pass.FreesSpace

/-- The default selection computes with numbers that fit, and the improved one finds enough
garbage; when a zone is taken for an extent, the zones that are selected are in use, or
are neither empty nor accepted by the search for an open zone. -/
def Clean : Label → Prop
  | .startPass .kDefaultGC _ =>
      ∀ i ∈ c.allocator.table.ioZones, (c.allocator.table.zone i).capacity = 0 →
      100 * (c.allocator.table.zone i).usedCapacity < 2 ^ 64
  | .startPass .kImprovedGC _ => ∀ free_percent ∈ c.getFreePercent, ∀ zones ∈ c.zoneSnapshots,
      EnoughGarbage c.params c.nrZones free_percent zones
  | .takeMigrateZone _ w _ => ∀ pass ∈ c.pass, ∀ m ∈ pass.current, ∀ ext ∈ m.rest.head?,
      ∀ zone ∈ pass.selected, ∀ i, (c.allocator.table.zone i).start = zone.start →
        c.allocator.table.busy i = true ∨
          ¬ Allocator.Selectable c.allocator.table w (c.file m.zfile).info (c.file m.zfile).level
          (ext.length % 2 ^ 32) i
  | _ => True

variable {c} {c' : Collector} {pass : Pass} {m : Migration} {reset : ZoneId → Option (Option Nat)}

theorem setCurrent_freesSpace {current : Option Migration} (hpass : pass.FreesSpace) :
    (c.setCurrent pass current).FreesSpace := by
  rintro _ ⟨⟩
  exact ⟨hpass.garbage, hpass.apart⟩

theorem afterFile_freesSpace (hpass : pass.FreesSpace) : (c.afterFile pass reset).FreesSpace := by
  unfold afterFile
  split
  · rintro _ ⟨⟩
    exact hpass
  · rintro _ ⟨⟩
    exact ⟨hpass.garbage, hpass.apart⟩

theorem nextFile_freesSpace (hpass : pass.FreesSpace) (h : c.nextFile pass reset = some c') :
    c'.FreesSpace := by
  have hrest : ∀ groups, ({ pass with groups := groups } : Pass).FreesSpace :=
    fun _ ↦ ⟨hpass.garbage, hpass.apart⟩
  unfold nextFile at h
  split at h
  · obtain rfl := Option.some.inj h
    rintro _ ⟨⟩
    exact hrest _
  · dsimp only at h
    split at h
    · obtain rfl := Option.some.inj h
      exact afterFile_freesSpace (hrest _)
    split at h
    · obtain rfl := Option.some.inj h
      exact afterFile_freesSpace (hrest _)
    · obtain rfl := Option.some.inj h
      exact setCurrent_freesSpace (hrest _)
  · cases h

/-- The zone that is taken is free and can be selected, so that it is not one of the
victims. -/
theorem takeMigrateZone_freesSpace {finish : ZoneId → Status} {w : Placement} {fuel : Nat}
    (hpass : pass.FreesSpace) (hclean : ∀ ext ∈ m.rest.head?, ∀ zone ∈ pass.selected, ∀ i,
      (c.allocator.table.zone i).start = zone.start → c.allocator.table.busy i = true ∨
        ¬ Allocator.Selectable c.allocator.table w (c.file m.zfile).info (c.file m.zfile).level
          (ext.length % 2 ^ 32) i)
    (h : c.takeMigrateZone pass m finish w fuel = some c') : c'.FreesSpace := by
  unfold takeMigrateZone at h
  split at h
  · rename_i ext rest htarget hrest
    rw [hrest] at hclean
    split at h
    · obtain ⟨r, hr, rfl⟩ := Option.map_eq_some_iff.mp h
      dsimp only
      split
      · rename_i i hok hi
        refine setCurrent_freesSpace ⟨hpass.garbage, fun start hstart zone hzone ↦ ?_⟩
        rcases List.mem_append.mp hstart with hstart | hstart
        · exact hpass.apart start hstart zone hzone
        · obtain rfl := List.mem_singleton.mp hstart
          intro heq
          rcases hclean ext rfl zone hzone i heq.symm with hbusy | hsel
          · rw [Allocator.allocateIOZoneNoLock_free hr hi] at hbusy
            cases hbusy
          · exact hsel (Allocator.allocateIOZoneNoLock_returns hr i hok hi).1
      · exact setCurrent_freesSpace hpass
    · obtain rfl := Option.some.inj h
      exact setCurrent_freesSpace hpass
  · cases h

theorem migrateData_freesSpace {appended : Nat} {closed : Status} (hpass : pass.FreesSpace)
    (h : c.migrateData pass m appended closed = some c') : c'.FreesSpace := by
  unfold migrateData at h
  split at h
  · dsimp only at h
    split at h
    · cases h
    split at h
    · obtain rfl := Option.some.inj h
      exact setCurrent_freesSpace hpass
    · obtain rfl := Option.some.inj h
      exact setCurrent_freesSpace hpass
  · cases h

theorem syncFileExtents_freesSpace {synced : Bool} (hpass : pass.FreesSpace)
    (h : c.syncFileExtents pass m synced reset = some c') : c'.FreesSpace := by
  unfold syncFileExtents at h
  split at h
  · obtain rfl := Option.some.inj h
    exact afterFile_freesSpace ⟨hpass.garbage, hpass.apart⟩
  · cases h

theorem zoneSnapshots_mem {zones : List ZoneSnapshot} (h : c.zoneSnapshots = some zones)
    {zone : ZoneSnapshot} (hzone : zone ∈ zones) :
    zone.maxCapacity < 2 ^ 64 ∧ ∃ i ∈ c.allocator.table.ioZones,
      zone.capacity = (c.allocator.table.zone i).capacity ∧
      zone.usedCapacity = (c.allocator.table.zone i).usedCapacity := by
  unfold zoneSnapshots at h
  generalize c.allocator.table.ioZones = is at h ⊢
  induction is generalizing zones with
  | nil =>
      obtain rfl := Option.some.inj h
      cases hzone
  | cons i is ih =>
      rw [List.mapM_cons, Option.bind_eq_bind, Option.bind_eq_some_iff] at h
      obtain ⟨first, hfirst, h⟩ := h
      rw [Option.bind_eq_bind, Option.bind_eq_some_iff] at h
      obtain ⟨rest, hrest, h⟩ := h
      obtain rfl := Option.some.inj h
      rcases List.mem_cons.mp hzone with rfl | hzone
      · unfold zoneSnapshot at hfirst
        split at hfirst
        · rename_i hmax
          obtain rfl := Option.some.inj hfirst
          exact ⟨hmax.2, i, List.mem_cons_self, rfl, rfl⟩
        · cases hfirst
      · obtain ⟨hmax, j, hj, hsame⟩ := ih hzone hrest
        exact ⟨hmax, j, List.mem_cons_of_mem i hj, hsame⟩

theorem select_garbage {gc_type : GCType} {sort : ZoneSort} {free_percent : Nat}
    {zones : List ZoneSnapshot} (hfree : c.getFreePercent = some free_percent)
    (hzones : c.zoneSnapshots = some zones)
    (hclean : c.Clean (.startPass gc_type sort)) :
    ∀ zone ∈ c.select gc_type sort free_percent zones, zone.hasGarbage = true := by
  intro zone hzone
  cases gc_type with
  | kImprovedGC =>
      have henough := hclean free_percent hfree zones hzones
      have hmax : ∀ zone ∈ zones, zone.maxCapacity < 2 ^ 64 := fun zone hzone ↦
        (zoneSnapshots_mem hzones hzone).1
      exact (selectGarbageZonesImproved_garbage_iff hmax).mpr henough sort zone hzone
  | kDefaultGC =>
      obtain ⟨hzone, hsel⟩ := List.mem_filter.mp hzone
      obtain ⟨hmax, i, hi, hcapacity, hused⟩ := zoneSnapshots_mem hzones hzone
      refine isGarbageZone_hasGarbage hsel hmax ?_
      rw [hused]
      refine hclean i hi ?_
      rw [← hcapacity]
      exact isGarbageZone_capacity hsel

theorem startPass_freesSpace {gc_type : GCType} {sort : ZoneSort} (hc : c.FreesSpace)
    (hclean : c.Clean (.startPass gc_type sort)) (h : c.startPass gc_type sort = some c') :
    c'.FreesSpace := by
  unfold startPass at h
  rw [Option.bind_eq_some_iff] at h
  obtain ⟨free_percent, hfree, h⟩ := h
  split at h
  · obtain rfl := Option.some.inj h
    exact hc
  · obtain ⟨snapshot, hsnapshot, rfl⟩ := Option.map_eq_some_iff.mp h
    obtain ⟨zones, hzones, rfl⟩ := Option.map_eq_some_iff.mp hsnapshot
    rintro _ ⟨⟩
    refine ⟨select_garbage hfree hzones hclean, ?_⟩
    rintro start ⟨⟩

/-- One step. -/
theorem step_freesSpace {l : Label} (hc : c.FreesSpace) (hclean : c.Clean l)
    (h : c.step l = some c') : c'.FreesSpace := by
  cases l with
  | startPass gc_type sort =>
      simp only [step] at h
      split at h
      · cases h
      · cases h
      · exact startPass_freesSpace hc hclean h
  | nextFile reset =>
      obtain ⟨pass, hpass, h⟩ := Option.bind_eq_some_iff.mp h
      exact nextFile_freesSpace (hc pass hpass) h
  | takeMigrateZone finish w fuel =>
      obtain ⟨pass, hpass, h⟩ := Option.bind_eq_some_iff.mp h
      obtain ⟨m, hm, h⟩ := Option.bind_eq_some_iff.mp h
      exact takeMigrateZone_freesSpace (hc pass hpass) (hclean pass hpass m hm) h
  | migrateData appended closed =>
      obtain ⟨pass, hpass, h⟩ := Option.bind_eq_some_iff.mp h
      obtain ⟨m, -, h⟩ := Option.bind_eq_some_iff.mp h
      exact migrateData_freesSpace (hc pass hpass) h
  | syncFileExtents synced reset =>
      obtain ⟨pass, hpass, h⟩ := Option.bind_eq_some_iff.mp h
      obtain ⟨m, -, h⟩ := Option.bind_eq_some_iff.mp h
      exact syncFileExtents_freesSpace (hc pass hpass) h
  | zoneChanged i capacity wp usedCapacity busy =>
      obtain rfl := Option.some.inj h
      exact hc
  | filesChanged files file =>
      obtain rfl := Option.some.inj h
      exact hc
  | countersChanged openIoZones activeIoZones deferredStatus =>
      obtain rfl := Option.some.inj h
      exact hc

/-- In every run whose steps are clean, each pass frees space: the zones that it selects
contain garbage, and it moves no extent into one of them. -/
theorem passes_free_space (hc : c.FreesSpace) (h : Reach step Clean c c') : c'.FreesSpace :=
  h.invariant hc step_freesSpace

/-- What a Boolean test finds behind a list of steps. -/
theorem exists_reach_of_any {ls : List Label} {test : Pass → Bool}
    (h : (runAll step c ls).any (fun t ↦ t.pass.any test) = true) :
    ∃ t, Reach step (fun _ _ ↦ True) c t ∧ ∃ pass ∈ t.pass, test pass = true := by
  obtain ⟨t, ht, hpass⟩ := (Option.any_eq_true _ _).mp h
  obtain ⟨pass, hpass, htest⟩ := (Option.any_eq_true _ _).mp hpass
  exact ⟨t, .of_runAll ls (fun _ _ ↦ trivial) ht, pass, hpass, htest⟩

/-- Zones of four blocks, with what is left and what is used of each. -/
def zonesOf (zones : List (Nat × Nat)) : Allocator where
  table :=
    { zoneSize := 4 * 16
      ioZones := List.range zones.length
      zone := fun i ↦
        { start := 64 * i
          maxCapacity := 64
          capacity := (zones.getD i (0, 0)).1
          wp := 64 * i + (64 - (zones.getD i (0, 0)).1)
          usedCapacity := (zones.getD i (0, 0)).2 }
      busy := fun _ ↦ false }
  maxNrOpenIoZones := 2
  maxNrActiveIoZones := 2

/-- One file, with one extent at the beginning of zone 0. -/
def holding (zones : List (Nat × Nat)) (length : Nat) : Collector where
  nrZones := 4
  allocator := zonesOf zones
  files := [("a.sst", 0)]
  file := fun _ ↦ { filename := "a.sst", extents := [{ start := 0, length := length, zone := 0 }] }

/-- A pass that gets to its first extent. -/
def firstExtent (gc_type : GCType) : List Label :=
  [.startPass gc_type .insertion, .nextFile fun _ ↦ none, .takeMigrateZone (fun _ ↦ .ok) {} 0]

theorem passes_free_space_emptyZone :
    ∃ c, runAll step (holding [(0, 7), (64, 0), (0, 64), (0, 64), (0, 64), (0, 64)] 7)
      (firstExtent .kDefaultGC) = some c ∧ c.pass.map Pass.targets = some [64] ∧ c.FreesSpace := by
  refine ⟨_, rfl, rfl,
    @passes_free_space (holding [(0, 7), (64, 0), (0, 64), (0, 64), (0, 64), (0, 64)] 7) _ ?_ ?_⟩
  · rintro pass ⟨⟩
  · refine Reach.head (i := .startPass .kDefaultGC .insertion) ?_ rfl ?_
    · show ∀ i ∈ List.range 6, _ = 0 → _ < 2 ^ 64
      decide
    refine Reach.head (i := .nextFile fun _ ↦ none) trivial rfl ?_
    refine Reach.head (i := .takeMigrateZone (fun _ ↦ .ok) {} 0) ?_ rfl .refl
    rintro pass ⟨⟩ m ⟨⟩ ext ⟨⟩ zone hzone i hi
    obtain rfl := List.mem_singleton.mp hzone
    -- the victim is zone 0, which is full
    obtain rfl : i = 0 := (Nat.mul_eq_zero.mp hi).resolve_left (by decide)
    right
    rintro (⟨-, hempty⟩ | ⟨hfits, -⟩)
    · cases hempty
    · cases hfits

/-- The improved selection takes a full zone all of which is valid.  It also takes a zone
that is half written, and the extent in it is moved within the zone. -/
theorem exists_useless_passes :
    (¬ ∀ c c', c.pass = none → Reach step (fun _ _ ↦ True) c c' →
      ∀ pass ∈ c'.pass, ∀ zone ∈ pass.selected, zone.hasGarbage = true) ∧
    ¬ ∀ c c', c.pass = none → Reach step (fun _ _ ↦ True) c c' →
      ∀ pass ∈ c'.pass, ∀ start ∈ pass.targets, ∀ zone ∈ pass.selected, zone.start ≠ start := by
  constructor
  · intro h
    obtain ⟨c, hc, pass, hpass, htest⟩ := @exists_reach_of_any (holding [(0, 64)] 64)
      (firstExtent .kImprovedGC |>.take 1)
      (fun pass ↦ pass.selected.any fun zone ↦ !zone.hasGarbage) (by decide +kernel)
    obtain ⟨zone, hzone, hnone⟩ := List.any_eq_true.mp htest
    rw [h _ c rfl hc pass hpass zone hzone] at hnone
    cases hnone
  · intro h
    obtain ⟨c, hc, pass, hpass, htest⟩ := @exists_reach_of_any (holding [(16, 16), (0, 64)] 16)
      (firstExtent .kImprovedGC)
      (fun pass ↦ pass.targets.any fun start ↦ pass.selected.any fun zone ↦ zone.start == start)
      (by decide +kernel)
    obtain ⟨start, hstart, htest⟩ := List.any_eq_true.mp htest
    obtain ⟨zone, hzone, hsame⟩ := List.any_eq_true.mp htest
    exact h _ c rfl hc pass hpass start hstart zone hzone (beq_iff_eq.mp hsame)

end Collector

end Gc

end ZenFs
