import ZenFs.Lib.Lru
import ZenFs.Lib.Reach

/-!
# The cache of open zone files

`ZoneFsFileCache` has a list of files, the one used last in front, and a map from the
zones to the nodes of that list.  An iterator is known by a number that no other node
gets.  A function that uses an iterator whose node is not in the list has no result; the
theorem of this file says that there is no such use, and that the cache is an
`Lru.Bounded`.
-/

namespace ZenFs

/-- A `ZoneFsFile`: which object it is, and its descriptor. -/
structure ZoneFsFile where
  object : Nat
  fd : Int
deriving DecidableEq, Repr

/-- A node of `list_`. -/
structure FileNode where
  it : Nat
  zone : UInt64
  file : ZoneFsFile
deriving DecidableEq, Repr

/-- `ZoneFsFileCache`, with the number of nodes and files it has made so far. -/
structure ZoneFsFileCache where
  list : List FileNode := []
  map : AList (fun _ : UInt64 ↦ Nat) := ∅
  max : UInt32
  flags : Nat
  made : Nat := 0

namespace ZoneFsFileCache

def O_RDONLY : Nat := 0

def ZENFS_ZONEFS_DEFAULT_MAX_LIMIT : UInt32 := 14

def ZENFS_ZONEFS_DEFAULT_MAX_RD_LIMIT : UInt32 := 100

/-- The constructor.  `O_RDONLY` is no bit, so that every cache has the lower limit. -/
def new (flags : Nat) : ZoneFsFileCache where
  max := if flags &&& O_RDONLY ≠ 0 then ZENFS_ZONEFS_DEFAULT_MAX_RD_LIMIT
    else ZENFS_ZONEFS_DEFAULT_MAX_LIMIT
  flags := flags

/-- `list_.erase(it)`. -/
def eraseNode (list : List FileNode) (it : Nat) : Option (List FileNode) :=
  if list.any (·.it == it) then some (list.eraseP (·.it == it)) else none

/-- `list_.splice(list_.begin(), list_, it)`. -/
def splice (list : List FileNode) (it : Nat) : Option (List FileNode) :=
  (list.find? (·.it == it)).map fun node ↦ node :: list.eraseP (·.it == it)

variable (s : ZoneFsFileCache)

/-- `ZoneFsFileCache::Put`. -/
def put (zone : UInt64) : Option ZoneFsFileCache :=
  match s.map.lookup zone with
  | none => some s
  | some entry =>
      (eraseNode s.list entry).map fun list ↦ { s with list := list, map := s.map.erase zone }

/-- `ZoneFsFileCache::Prune`. -/
def prune (s : ZoneFsFileCache) (limit : UInt32) : ZoneFsFileCache :=
  if h : limit.toNat < s.list.length then
    have hne : s.list ≠ [] := List.ne_nil_of_length_pos (Nat.zero_lt_of_lt h)
    prune { s with map := s.map.erase (s.list.getLast hne).zone, list := s.list.dropLast } limit
  else s
termination_by s.list.length
decreasing_by
  rw [List.length_dropLast]
  omega

/-- `list_.emplace_front(zone, file)` and `map_.emplace(zone, list_.begin())`, which leaves an
entry alone if there is one. -/
def emplaceFront (zone : UInt64) (file : ZoneFsFile) : ZoneFsFileCache :=
  { s with
    list := ⟨s.made, zone, file⟩ :: s.list
    map := if zone ∈ s.map then s.map else s.map.insert zone s.made
    made := s.made + 1 }

/-- `ZoneFsFileCache::Get`, with the result of `open` for the names and flags it may be called
with. -/
def get (zone : UInt64) (filename : String) (sysOpen : String → Nat → Int) :
    Option (ZoneFsFileCache × Option ZoneFsFile) :=
  match s.map.lookup zone with
  | none =>
      let fd := sysOpen filename s.flags
      if fd = -1 then some (s, none)
      else
        let zoneFsFile : ZoneFsFile := ⟨s.made, fd⟩
        some ((s.prune (s.max - 1)).emplaceFront zone zoneFsFile, some zoneFsFile)
  | some entry => do
      let node ← s.list.find? (·.it == entry)
      let list ← splice s.list entry
      return ({ s with list := list }, some node.file)

/-- `ZoneFsFileCache::Resize`. -/
def resize (new_size : UInt32) : ZoneFsFileCache :=
  { (if new_size < s.max then s.prune new_size else s) with max := new_size }

/-- A call of one of the public functions. -/
inductive Call where
  | put (zone : UInt64)
  | get (zone : UInt64) (filename : String) (sysOpen : String → Nat → Int)
  | resize (new_size : UInt32)

/-- The size of a `Resize` is positive. -/
def Call.Positive : Call → Prop
  | .resize new_size => 0 < new_size
  | _ => True

/-- The zone of a `Get`. -/
def Call.used : Call → Option UInt64
  | .get zone _ _ => some zone
  | _ => none

/-- What a call leaves. -/
def step : Call → Option ZoneFsFileCache
  | .put zone => s.put zone
  | .get zone filename sysOpen => (s.get zone filename sysOpen).map Prod.fst
  | .resize new_size => some (s.resize new_size)

/-- The zones of the `Get` calls, the latest first. -/
def uses (cs : List Call) : List UInt64 := (cs.filterMap Call.used).reverse

/-- The zones in the list. -/
def zones : List UInt64 := s.list.map FileNode.zone

/-- The map and the list hold the same zones, each once, and the map leads to the node of the
zone; the limit is kept. -/
structure Consistent : Prop where
  mem_map_iff : ∀ zone, zone ∈ s.map ↔ zone ∈ s.zones
  nodup : s.zones.Nodup
  refers : ∀ zone it, s.map.lookup zone = some it → ∃ node ∈ s.list, node.it = it ∧ node.zone = zone
  nodup_it : (s.list.map FileNode.it).Nodup
  length_le : s.list.length ≤ s.max.toNat

/-- What `Get` returns: the file of the zone, or one with the descriptor that has just been
opened; it is `nullptr`, and nothing has changed, if it cannot be opened. -/
structure Returns (s s' : ZoneFsFileCache) (zone : UInt64) (fd : Int) (file : Option ZoneFsFile) :
    Prop where
  cached : ∀ node ∈ s.list, node.zone = zone → file = some node.file
  opened : zone ∉ s.zones → fd ≠ -1 → file = some ⟨s.made, fd⟩ ∧
    ⟨s.made, zone, ⟨s.made, fd⟩⟩ ∈ s'.list
  failed : zone ∉ s.zones → fd = -1 → file = none ∧ s' = s

/-- A node goes because the limit is reached: the cache is full before and after, and all nodes
that stay were used after it. -/
structure Evicted (uses : List UInt64) (s s' : ZoneFsFileCache) (node : FileNode) : Prop where
  full : s'.max.toNat ≤ s.list.length
  still : s'.list.length = s'.max.toNat
  least : ∀ other ∈ s.list, other ∈ s'.list → Lru.MoreRecent uses other.zone node.zone

section Refinement

variable {s} {b : Lru.Bounded fun _ : UInt64 ↦ ZoneFsFile} {l₁ l₂ : List FileNode} {node : FileNode}
  {zone : UInt64}

/-- What the cache stores in a node. -/
def entry (node : FileNode) : Sigma fun _ : UInt64 ↦ ZoneFsFile := ⟨node.zone, node.file⟩

/-- The list is a bounded cache, and the map finds its nodes. -/
structure Refines (s : ZoneFsFileCache) (b : Lru.Bounded fun _ : UInt64 ↦ ZoneFsFile) : Prop where
  entries : b.cache.entries = s.list.map entry
  limit : b.limit = s.max.toNat
  lookup : ∀ zone it, s.map.lookup zone = some it ↔ ∃ node ∈ s.list, node.zone = zone ∧ node.it = it
  nodup_it : (s.list.map FileNode.it).Nodup
  lt_made : ∀ node ∈ s.list, node.it < s.made

/-- What `Get` can put into the list for a zone that is not there. -/
def opened (s : ZoneFsFileCache) (filename : String) (sysOpen : String → Nat → Int) :
    Option ZoneFsFile :=
  if sysOpen filename s.flags = -1 then none else some ⟨s.made, sysOpen filename s.flags⟩

/-- The operation that a call is. -/
def op (s : ZoneFsFileCache) : Call → Lru.Op fun _ : UInt64 ↦ ZoneFsFile
  | .put zone => .remove zone
  | .get zone filename sysOpen => .use zone (s.opened filename sysOpen)
  | .resize new_size => .resize new_size.toNat

@[simp] theorem op_used (s : ZoneFsFileCache) (c : Call) : (s.op c).used = c.used := by
  cases c <;> rfl

theorem op_positive {c : Call} (h : c.Positive) (s : ZoneFsFileCache) : (s.op c).Positive := by
  cases c with
  | resize n => exact UInt32.lt_iff_toNat_lt.mp h
  | put | get => trivial

/-- Nodes are only added for zones that were not in the list. -/
def Keeps (s s' : ZoneFsFileCache) : Prop := ∀ node ∈ s'.list, node ∈ s.list ∨ node.zone ∉ s.zones

namespace Refines

theorem keys (h : Refines s b) : b.cache.keys = s.zones := by
  rw [AList.keys, List.keys, h.entries, List.map_map]
  rfl

theorem nodup (h : Refines s b) : s.zones.Nodup := h.keys ▸ b.cache.keys_nodup

theorem mem_iff (h : Refines s b) : zone ∈ b.cache ↔ zone ∈ s.zones := by
  rw [AList.mem_keys, h.keys]

theorem mem_map_iff (h : Refines s b) (zone : UInt64) : zone ∈ s.map ↔ zone ∈ s.zones := by
  rw [← AList.lookup_isSome, Option.isSome_iff_exists, zones, List.mem_map]
  constructor
  · rintro ⟨it, hit⟩
    obtain ⟨node, hnode, hz, -⟩ := (h.lookup zone it).mp hit
    exact ⟨node, hnode, hz⟩
  · rintro ⟨node, hnode, hz⟩
    exact ⟨node.it, (h.lookup zone _).mpr ⟨node, hnode, hz, rfl⟩⟩

theorem length_eq (h : Refines s b) : b.cache.entries.length = s.list.length := by
  rw [h.entries, List.length_map]

theorem consistent (h : Refines s b) (hlen : b.cache.entries.length ≤ b.limit) : s.Consistent where
  mem_map_iff := h.mem_map_iff
  nodup := h.nodup
  refers := fun zone it hit ↦ by
    obtain ⟨node, hnode, hz, hi⟩ := (h.lookup zone it).mp hit
    exact ⟨node, hnode, hi, hz⟩
  nodup_it := h.nodup_it
  length_le := by rwa [← h.length_eq, ← h.limit]

/-- The node of a zone, and the nodes around it. -/
theorem exists_split (h : Refines s b) {it : Nat} (hit : s.map.lookup zone = some it) :
    ∃ l₁ node l₂, s.list = l₁ ++ node :: l₂ ∧ node.zone = zone ∧ node.it = it := by
  obtain ⟨node, hnode, hz, hi⟩ := (h.lookup zone it).mp hit
  obtain ⟨l₁, l₂, hl⟩ := List.append_of_mem hnode
  exact ⟨l₁, node, l₂, hl, hz, hi⟩

/-- No other node is found by the iterator. -/
theorem it_ne (h : Refines s b) (hl : s.list = l₁ ++ node :: l₂) :
    ∀ other ∈ l₁, ¬ (other.it == node.it) = true := by
  have hnodup := h.nodup_it
  rw [hl, List.map_append, List.map_cons, List.nodup_middle, List.nodup_cons] at hnodup
  intro other hother heq
  exact hnodup.1 (List.mem_append_left _ (List.mem_map.mpr ⟨other, hother, eq_of_beq heq⟩))

theorem eraseP_eq (h : Refines s b) (hl : s.list = l₁ ++ node :: l₂) :
    s.list.eraseP (·.it == node.it) = l₁ ++ l₂ := by
  rw [hl, List.eraseP_append_right _ (h.it_ne hl), List.eraseP_cons_of_pos (by simp)]

theorem find?_eq (h : Refines s b) (hl : s.list = l₁ ++ node :: l₂) :
    s.list.find? (·.it == node.it) = some node := by
  rw [hl, List.find?_append, List.find?_eq_none.mpr (h.it_ne hl), Option.none_or,
    List.find?_cons_of_pos (by simp)]

theorem kerase_entries (h : Refines s b) (hl : s.list = l₁ ++ node :: l₂) :
    b.cache.entries.kerase node.zone = (l₁ ++ l₂).map entry := by
  have hzones := h.nodup
  rw [zones, hl, List.map_append, List.map_cons, List.nodup_middle, List.nodup_cons] at hzones
  have hfront : node.zone ∉ (l₁.map entry).keys := by
    rw [List.keys, List.map_map]
    exact fun hm ↦ hzones.1 (List.mem_append_left _ hm)
  have hback : (entry node :: l₂.map entry).kerase node.zone = l₂.map entry :=
    List.kerase_cons_eq rfl
  rw [h.entries, hl, List.map_append, List.kerase_append_right hfront, List.map_cons, hback,
    ← List.map_append]

/-- A node is taken out of the list, and its zone out of the map. -/
theorem remove (h : Refines s b) (hl : s.list = l₁ ++ node :: l₂) :
    Refines { s with list := l₁ ++ l₂, map := s.map.erase node.zone }
      { b with cache := b.cache.erase node.zone } := by
  have hperm : s.list.Perm (node :: (l₁ ++ l₂)) := hl ▸ List.perm_middle
  have hits := (hperm.map FileNode.it).nodup_iff.mp h.nodup_it
  have hzones := (hperm.map FileNode.zone).nodup_iff.mp h.nodup
  rw [List.map_cons, List.nodup_cons] at hits hzones
  have hmem : ∀ other, other ∈ s.list ↔ other = node ∨ other ∈ l₁ ++ l₂ := fun other ↦
    hperm.mem_iff.trans List.mem_cons
  refine ⟨h.kerase_entries hl, h.limit, fun zone it ↦ ?_, hits.2, fun other ho ↦ ?_⟩
  · by_cases hz : zone = node.zone
    · subst hz
      rw [AList.lookup_erase]
      refine iff_of_false (by simp) ?_
      rintro ⟨other, hother, hoz, -⟩
      exact hzones.1 (List.mem_map.mpr ⟨other, hother, hoz⟩)
    · rw [AList.lookup_erase_ne hz, h.lookup]
      refine exists_congr fun other ↦ ?_
      rw [hmem]
      constructor
      · rintro ⟨rfl | hother, hoz, hoi⟩
        · exact absurd hoz.symm hz
        · exact ⟨hother, hoz, hoi⟩
      · rintro ⟨hother, hoz, hoi⟩
        exact ⟨.inr hother, hoz, hoi⟩
  · exact h.lt_made other ((hmem other).mpr (.inr ho))

/-- A node is moved to the front. -/
theorem moveToFront (h : Refines s b) (hl : s.list = l₁ ++ node :: l₂) :
    Refines { s with list := node :: (l₁ ++ l₂) } { b with
      cache := b.cache.insert node.zone node.file } := by
  have hperm : (node :: (l₁ ++ l₂)).Perm s.list := hl ▸ List.perm_middle.symm
  refine ⟨?_, h.limit, fun zone it ↦ ?_, ?_, fun other ho ↦ h.lt_made other (hperm.mem_iff.mp ho)⟩
  · rw [AList.entries_insert, h.kerase_entries hl]
    rfl
  · rw [h.lookup]
    exact exists_congr fun other ↦ and_congr_left' hperm.mem_iff.symm
  · exact (hperm.map _).nodup_iff.mpr h.nodup_it

/-- A new node has an iterator of its own. -/
theorem emplaceFront (h : Refines s b) (hz : zone ∉ s.zones) (file : ZoneFsFile) :
    Refines (s.emplaceFront zone file) { b with cache := b.cache.insert zone file } := by
  have hmap : zone ∉ s.map := fun hm ↦ hz ((h.mem_map_iff zone).mp hm)
  have hit : s.made ∉ s.list.map FileNode.it := by
    intro hm
    obtain ⟨node, hnode, hi⟩ := List.mem_map.mp hm
    exact absurd (h.lt_made node hnode) (hi ▸ Nat.lt_irrefl _)
  refine ⟨?_, h.limit, fun zone' it ↦ ?_, List.nodup_cons.mpr ⟨hit, h.nodup_it⟩, fun node hn ↦ ?_⟩
  · rw [AList.entries_insert_of_notMem fun hm ↦ hz (h.mem_iff.mp hm), h.entries]
    rfl
  · rw [ZoneFsFileCache.emplaceFront, if_neg hmap, List.exists_mem_cons_iff]
    by_cases hzz : zone' = zone
    · subst hzz
      rw [AList.lookup_insert, Option.some_inj]
      refine ⟨fun hi ↦ .inl ⟨rfl, hi⟩, ?_⟩
      rintro (⟨-, hi⟩ | ⟨node, hnode, hnz, -⟩)
      · exact hi
      · exact absurd (List.mem_map.mpr ⟨node, hnode, hnz⟩) hz
    · rw [AList.lookup_insert_ne hzz, h.lookup]
      exact (or_iff_right fun hn ↦ hzz hn.1.symm).symm
  · rcases List.mem_cons.mp hn with rfl | hn
    · exact Nat.lt_succ_self _
    · exact Nat.lt_succ_of_lt (h.lt_made node hn)

end Refines

/-- `Prune` leaves the front of the list, and no more than the limit of it. -/
theorem prune_list (s : ZoneFsFileCache) (limit : UInt32) :
    (s.prune limit).list = s.list.take limit.toNat := by
  fun_induction prune s limit with
  | case1 s hlt hne ih =>
      rw [ih, List.dropLast_eq_take, List.take_take, Nat.min_eq_left (Nat.le_sub_one_of_lt hlt)]
  | case2 s hle => rw [List.take_of_length_le (not_lt.mp hle)]

/-- `Prune` changes nothing but the list and the map. -/
theorem prune_frame (s : ZoneFsFileCache) (limit : UInt32) :
    (s.prune limit).max = s.max ∧ (s.prune limit).flags = s.flags ∧
    (s.prune limit).made = s.made := by
  fun_induction prune s limit with
  | case1 s hlt hne ih => exact ih
  | case2 s hle => exact ⟨rfl, rfl, rfl⟩

namespace Refines

theorem prune (h : Refines s b) (limit : UInt32) :
    Refines (s.prune limit) { b with cache := Lru.keep limit.toNat b.cache } := by
  fun_induction ZoneFsFileCache.prune s limit generalizing b with
  | case1 s hlt hne ih =>
      have hl := (List.dropLast_append_getLast hne).symm
      have hremove := h.remove hl
      rw [List.append_nil] at hremove
      have hkeep : Lru.keep limit.toNat (b.cache.erase (s.list.getLast hne).zone) =
          Lru.keep limit.toNat b.cache := by
        refine AList.ext ?_
        show (b.cache.entries.kerase _).take _ = b.cache.entries.take _
        rw [h.kerase_entries hl, h.entries, List.append_nil, ← List.map_take, ← List.map_take,
          List.dropLast_eq_take, List.take_take, Nat.min_eq_left (Nat.le_sub_one_of_lt hlt)]
      exact hkeep ▸ ih hremove
  | case2 s hle =>
      rwa [Lru.keep_of_length_le (h.length_eq ▸ not_lt.mp hle)]

theorem put (h : Refines s b) (zone : UInt64) :
    ∃ s', s.put zone = some s' ∧ Refines s' (b.step (.remove zone)) ∧ Keeps s s' := by
  unfold ZoneFsFileCache.put
  split
  · next hnone =>
      have hzone : zone ∉ b.cache.keys := by
        rw [h.keys, ← h.mem_map_iff]
        exact AList.lookup_eq_none.mp hnone
      have hb : b.cache.erase zone = b.cache := AList.ext (List.kerase_of_notMem_keys hzone)
      exact ⟨s, rfl, by rwa [Lru.Bounded.step, hb], fun _ ↦ .inl⟩
  · next it hit =>
      obtain ⟨l₁, node, l₂, hl, rfl, rfl⟩ := h.exists_split hit
      have hmem : node ∈ s.list := by simp [hl]
      have hany : s.list.any (·.it == node.it) = true := List.any_eq_true.mpr ⟨node, hmem, by simp⟩
      have herase : eraseNode s.list node.it = some (l₁ ++ l₂) := by
        rw [eraseNode, h.eraseP_eq hl, if_pos hany]
      rw [herase]
      exact ⟨_, rfl, h.remove hl, fun other ho ↦ .inl (hl ▸ List.mem_append.mpr
        ((List.mem_append.mp ho).imp_right (List.mem_cons_of_mem _)))⟩

theorem get (h : Refines s b) (hpos : 0 < b.limit) (zone : UInt64) (filename : String)
    (sysOpen : String → Nat → Int) :
    ∃ s' file, s.get zone filename sysOpen = some (s', file) ∧
      Refines s' (b.step (.use zone (s.opened filename sysOpen))) ∧ Keeps s s' ∧
      Returns s s' zone (sysOpen filename s.flags) file := by
  unfold ZoneFsFileCache.get
  split
  · next hnone =>
      have hzone : zone ∉ s.zones := by
        rw [← h.mem_map_iff]
        exact AList.lookup_eq_none.mp hnone
      have hcache : zone ∉ b.cache := fun hm ↦ hzone (h.mem_iff.mp hm)
      have hother : ∀ node ∈ s.list, node.zone ≠ zone := fun node hn hz ↦
        hzone (List.mem_map.mpr ⟨node, hn, hz⟩)
      by_cases hfd : sysOpen filename s.flags = -1
      · refine ⟨s, none, if_pos hfd, ?_, fun _ ↦ .inl, ?_⟩
        · rwa [opened, if_pos hfd, Lru.Bounded.step_use_none hcache]
        · exact ⟨fun node hn hz ↦ absurd hz (hother node hn), fun _ hne ↦ absurd hfd hne,
            fun _ _ ↦ ⟨rfl, rfl⟩⟩
      · have hlist := prune_list s (s.max - 1)
        have hmade := (prune_frame s (s.max - 1)).2.2
        have hlimit : (s.max - 1).toNat = b.limit - 1 := by
          rw [UInt32.toNat_sub_of_le _ _ (UInt32.le_iff_toNat_le.mpr (h.limit ▸ hpos)), h.limit]
          rfl
        have hpruned : zone ∉ (s.prune (s.max - 1)).zones := by
          rw [zones, hlist, List.map_take]
          exact fun hm ↦ hzone (List.mem_of_mem_take hm)
        refine ⟨_, _, if_neg hfd, ?_, fun node hn ↦ ?_, ?_⟩
        · rw [opened, if_neg hfd, Lru.Bounded.step_use_of_notMem hcache, ← hlimit]
          exact (h.prune _).emplaceFront hpruned _
        · rcases List.mem_cons.mp hn with rfl | hn
          · exact .inr hzone
          · exact .inl (List.mem_of_mem_take (hlist ▸ hn))
        · refine ⟨fun node hn hz ↦ absurd hz (hother node hn), fun _ _ ↦ ⟨rfl, ?_⟩, fun _ heq ↦
            absurd heq hfd⟩
          rw [ZoneFsFileCache.emplaceFront, hmade]
          exact List.mem_cons_self
  · next it hit =>
      obtain ⟨l₁, node, l₂, hl, rfl, rfl⟩ := h.exists_split hit
      have hmem : node ∈ s.list := by simp [hl]
      have hzone : node.zone ∈ s.zones := List.mem_map.mpr ⟨node, hmem, rfl⟩
      have hsplice : splice s.list node.it = some (node :: (l₁ ++ l₂)) := by
        rw [splice, h.find?_eq hl, h.eraseP_eq hl]
        rfl
      have hcached : b.cache.lookup node.zone = some node.file := by
        rw [← Option.mem_def, AList.mem_lookup_iff, h.entries]
        exact List.mem_map.mpr ⟨node, hmem, rfl⟩
      refine ⟨{ s with list := node :: (l₁ ++ l₂) }, some node.file, ?_, ?_,
        fun other ho ↦ .inl ?_, ?_⟩
      · rw [h.find?_eq hl, hsplice]
        rfl
      · rw [Lru.Bounded.step_use_of_lookup hcached]
        exact h.moveToFront hl
      · rw [hl]
        exact List.perm_middle.mem_iff.mpr ho
      · refine ⟨fun other ho hz ↦ ?_, fun hn ↦ absurd hzone hn, fun hn ↦ absurd hzone hn⟩
        rw [List.inj_on_of_nodup_map h.nodup ho hmem hz]

theorem resize (h : Refines s b) (hlen : b.cache.entries.length ≤ b.limit) (n : UInt32) :
    Refines (s.resize n) (b.step (.resize n.toNat)) ∧ Keeps s (s.resize n) := by
  unfold ZoneFsFileCache.resize
  split
  · have hp := h.prune n
    refine ⟨⟨hp.entries, rfl, hp.lookup, hp.nodup_it, hp.lt_made⟩, fun node hn ↦ .inl ?_⟩
    exact List.mem_of_mem_take (prune_list s n ▸ hn)
  · next hle =>
      have hle : b.limit ≤ n.toNat := h.limit ▸ UInt32.le_iff_toNat_le.mp (UInt32.not_lt.mp hle)
      rw [Lru.Bounded.step, Lru.keep_of_length_le (Nat.le_trans hlen hle)]
      exact ⟨⟨h.entries, rfl, h.lookup, h.nodup_it, h.lt_made⟩, fun _ ↦ .inl⟩

variable {us : List UInt64} {c : Call}

theorem step (h : Refines s b) (hb : b.Ordered us) (c : Call) :
    ∃ s', s.step c = some s' ∧ Refines s' (b.step (s.op c)) ∧ Keeps s s' := by
  cases c with
  | put zone => exact h.put zone
  | resize n => exact ⟨_, rfl, h.resize hb.length_le n⟩
  | get zone filename sysOpen =>
      obtain ⟨s', file, hget, hs', hkeeps, -⟩ := h.get hb.limit_pos zone filename sysOpen
      exact ⟨s', by rw [ZoneFsFileCache.step, hget]; rfl, hs', hkeeps⟩

theorem runAll (h : Refines s b) (hb : b.Ordered us) (cs : List Call) (hcs : ∀ c ∈ cs, c.Positive) :
    ∃ s' b', ZenFs.runAll ZoneFsFileCache.step s cs = some s' ∧ Refines s' b' ∧
    b'.Ordered (uses cs ++ us) := by
  induction cs generalizing s b us with
  | nil => exact ⟨s, b, rfl, h, hb⟩
  | cons c cs ih =>
      rw [List.forall_mem_cons] at hcs
      obtain ⟨s', hs', h', -⟩ := h.step hb c
      obtain ⟨t, b', ht, hrefines, hord⟩ := ih h' (hb.step (op_positive hcs.1 s)) hcs.2
      refine ⟨t, b', by rw [ZenFs.runAll, hs']; exact ht, hrefines, ?_⟩
      have huses : uses (c :: cs) = uses cs ++ c.used.toList := by
        cases hc : c.used <;> simp [uses, hc]
      rwa [huses, List.append_assoc, ← op_used s c]

/-- A node that is no longer there has been put or evicted. -/
theorem gone (h : Refines s b) (hb : b.Ordered us) {s' : ZoneFsFileCache} (hs' : s.step c = some s')
    {node : FileNode} (hnode : node ∈ s.list) (hgone : node ∉ s'.list) :
    c = .put node.zone ∨ Evicted us s s' node := by
  obtain ⟨t, ht, h', hkeeps⟩ := h.step hb c
  obtain rfl : s' = t := Option.some.inj (hs'.symm.trans ht)
  have hzone : node.zone ∈ s.zones := List.mem_map.mpr ⟨node, hnode, rfl⟩
  have hzone' : node.zone ∉ (b.step (s.op c)).cache := by
    intro hm
    obtain ⟨other, hother, hz⟩ := List.mem_map.mp (h'.mem_iff.mp hm)
    have hkept := (hkeeps other hother).resolve_right (not_not.mpr (hz ▸ hzone))
    exact hgone (List.inj_on_of_nodup_map h.nodup hkept hnode hz ▸ hother)
  rcases hb.gone (h.mem_iff.mpr hzone) hzone' with hop | hevicted
  · cases c with
    | put zone =>
        obtain rfl : zone = node.zone := by injection hop
        exact .inl rfl
    | get | resize => cases hop
  · refine .inr ⟨?_, ?_, fun other ho ho' ↦ hevicted.least _ ?_ ?_⟩
    · rw [← h.length_eq, ← h'.limit]
      exact hevicted.full
    · rw [← h'.length_eq, ← h'.limit]
      exact hevicted.still
    · exact h.mem_iff.mpr (List.mem_map.mpr ⟨other, ho, rfl⟩)
    · exact h'.mem_iff.mpr (List.mem_map.mpr ⟨other, ho', rfl⟩)

end Refines

theorem refines_new (flags : Nat) : Refines (new flags) ⟨∅, (new flags).max.toNat⟩ where
  entries := rfl
  limit := rfl
  lookup := by simp [new]
  nodup_it := List.nodup_nil
  lt_made := by simp [new]

theorem ordered_new (flags : Nat) :
    (⟨∅, (new flags).max.toNat⟩ : Lru.Bounded fun _ : UInt64 ↦ ZoneFsFile).Ordered [] where
  limit_pos := by simp [new, O_RDONLY, ZENFS_ZONEFS_DEFAULT_MAX_LIMIT]
  length_le := Nat.zero_le _
  follows := .empty

end Refinement

/-- After any calls with positive sizes the cache is consistent, and no iterator has been used
that does not belong to a node of the list; a further `Get` returns what it should, and a node
goes with a further call only if it is put or evicted as the one used least recently. -/
theorem correct_of_runAll (flags : Nat) (cs : List Call) (hcs : ∀ c ∈ cs, c.Positive) :
    ∃ s, runAll step (new flags) cs = some s ∧ s.Consistent ∧
      (∀ zone filename sysOpen, ∃ s' file, s.get zone filename sysOpen = some (s', file) ∧
        Returns s s' zone (sysOpen filename s.flags) file) ∧
      ∀ c s', s.step c = some s' → ∀ node ∈ s.list, node ∉ s'.list →
        c = .put node.zone ∨ Evicted (uses cs) s s' node := by
  obtain ⟨s, b, hs, h, hb⟩ := (refines_new flags).runAll (ordered_new flags) cs hcs
  rw [List.append_nil] at hb
  refine ⟨s, hs, h.consistent hb.length_le, fun zone filename sysOpen ↦ ?_,
    fun c s' hs' node hn hgone ↦ ?_⟩
  · obtain ⟨s', file, hget, -, -, hreturns⟩ := h.get hb.limit_pos zone filename sysOpen
    exact ⟨s', file, hget, hreturns⟩
  · exact h.gone hb hs' hn hgone

/-- Two zones are read, and the cache is cut down to one of them, which is then put. -/
def twoZones : List Call :=
  [.get 0 "/mnt/seq/0" fun _ _ ↦ 5, .get 1 "/mnt/seq/1" fun _ _ ↦ 6, .resize 1, .put 1]

theorem correct_of_runAll_twoZones : ∃ s, runAll step (new 1) twoZones = some s ∧ s.Consistent := by
  obtain ⟨s, hs, hconsistent, -⟩ := correct_of_runAll 1 twoZones (by simp [twoZones, Call.Positive])
  exact ⟨s, hs, hconsistent⟩

/-- A zone file that cannot be opened has no `ZoneFsFile`. -/
theorem get_of_unopened :
    ¬ ∃ s' file, (new 1).get 0 "/mnt/seq/0" (fun _ _ ↦ -1) = some (s', some file) := by
  rintro ⟨s', file, h⟩
  cases h

end ZoneFsFileCache

end ZenFs
