import ZenFs.Params.Load

/-!
# Which parameter files are safe to load

A file is safe exactly if its values convert and its last list for `zones_to_open` is long
enough for `PrintStats`; levels and boundaries are in order after every load that returns.
-/

namespace ZenFs

namespace Params

/-! ## What a text has to be -/

/-- The pairs of words of a text. -/
def entries (infile : Text) : List (Text × Text) := pairs (Words.words isSpace infile)
where
  /-- The last word has no partner if their number is odd. -/
  pairs : List Text → List (Text × Text)
    | type :: value :: ws => (type, value) :: pairs ws
    | _ => []

/-- A value begins with a numeral for a number that its conversion can return. -/
def Param.Converts (value : Text) : Param → Prop
  | .logname | .gc_type | .empty_zone_allocator | .upper_level_policy | .upper_level_policy_fallback
  | .lower_level_policy | .lower_level_policy_fallback | .middle_level_policy
  | .middle_level_policy_fallback => True
  | .tombstone_density | .nearest_newzone_threshold | .zone_fill_threshold =>
      ∃ x ∈ floating? value, x.Fits
  | .fragmentation_enabled | .buffer_size_megabytes | .buffer_count_max |
      .log_zonestats_placement_delete
  | .log_zonestats_placement_delete_verbose => ∃ n ∈ decimal? value, FitsULong n
  | .zones_to_open => ∀ piece ∈ pieces value, ∃ n ∈ decimal? piece, FitsInt n
  | _ => ∃ n ∈ decimal? value, FitsInt n

/-- All values in the file convert. -/
def Converts (infile : Text) : Prop :=
  ∀ e ∈ entries infile, ∀ type ∈ find? paramNames e.1, type.Converts e.2

/-- The numbers of a piece that `zones_to_open` takes. -/
def zoneCounts (value : Text) : List Int :=
  ((pieces value).filterMap decimal?).filter fun n ↦ 0 ≤ n ∧ n ≤ 255

/-- The number of zone counts that a pair gives, if it gives any. -/
def countsOf (e : Text × Text) : Option Nat :=
  if find? paramNames e.1 = some .zones_to_open ∧
    zoneCounts e.2 ≠ [] then some (zoneCounts e.2).length else none

/-- The last of the lists for `zones_to_open`, if there is one, is long enough for `PrintStats`. -/
def LongEnough (infile : Text) : Prop :=
  ∀ n ∈ ((entries infile).filterMap countsOf).getLast?, 10 ≤ n

/-- The file is safe to load: nothing is thrown, the levels and the boundaries are as they
should be, and `PrintStats` stays within `zones_to_open`. -/
def SafeToLoad (infile : Text) : Prop :=
  ∃ p, loadParamsFromFile {} infile = .ok p ∧
    (1 ≤ p.gc.gcStartLevel ∧ p.gc.gcStartLevel ≤ 99) ∧
    (1 ≤ p.gc.gcStopLevel ∧ p.gc.gcStopLevel ≤ 99) ∧
    (1 ≤ p.gc.gcSlope ∧ p.gc.gcSlope ≤ 99) ∧ p.minBoundary < p.maxBoundary ∧ (printStats p).isSome

/-! ## Conversions -/

section Conversions

variable {p p' : ZenfsParamContainer} {value : Text} {type : Param} {e : Text × Text}

theorem map_ok_iff {ε α β : Type} {v : Except ε α} {f : α → β} :
    (∃ y, v.map f = .ok y) ↔ ∃ x, v = .ok x := by
  cases v <;> simp [Except.map]

theorem accept_ok_iff {α : Type} {v : Except ConvError α} {ok : α → Bool}
    {store : α → ZenfsParamContainer} :
    (∃ p', p.accept v ok store = .ok p') ↔ ∃ x, v = .ok x := map_ok_iff

theorem stoi_ok_iff : (∃ n, stoi value = .ok n) ↔ ∃ n ∈ decimal? value, FitsInt n := convert_ok_iff

theorem stoul_ok_iff : (∃ n, stoul value = .ok n) ↔ ∃ n ∈ decimal? value, FitsULong n :=
  convert_ok_iff

theorem stod_ok_iff : (∃ x, stod value = .ok x) ↔ ∃ x ∈ floating? value, x.Fits := convert_ok_iff

theorem parseZonesToOpen_ok_iff {tokens : List Text} :
    (∃ zones, parseZonesToOpen tokens = .ok zones) ↔ ∀ token ∈ tokens, ∃ n ∈ decimal? token,
    FitsInt n := by
  induction tokens with
  | nil => simp [parseZonesToOpen]
  | cons token tokens ih =>
      rw [List.forall_mem_cons, ← ih, ← stoi_ok_iff, parseZonesToOpen]
      cases stoi token with
      | error => simp [bind, Except.bind]
      | ok n => cases parseZonesToOpen tokens <;> simp [bind, Except.bind, pure, Except.pure]

/-- A branch returns exactly if its value converts. -/
theorem set_ok_iff : (∃ p', p.set value type = .ok p') ↔ type.Converts value := by
  cases type <;>
    simp only [ZenfsParamContainer.set, Param.Converts, accept_ok_iff, map_ok_iff, stoi_ok_iff,
      stoul_ok_iff, stod_ok_iff, parseZonesToOpen_ok_iff, Except.ok.injEq, exists_eq', pieces]

theorem load_ok_iff :
    (∃ p', ZenfsParamContainer.load e p = .ok p') ↔ ∀ type ∈ find? paramNames e.1,
    type.Converts e.2 := by
  unfold ZenfsParamContainer.load
  split
  · next h => simp [h]
  · next type h => simp [h, set_ok_iff]

end Conversions

/-! ## What a load leaves -/

section Fields

variable {p p' : ZenfsParamContainer} {value : Text} {type : Param} {e : Text × Text}

theorem map_eq_ok {ε α β : Type} {v : Except ε α} {f : α → β} {y : β} (h : v.map f = .ok y) :
    ∃ x, v = .ok x ∧ y = f x := by
  cases v with
  | error => cases h
  | ok x =>
      cases h
      exact ⟨x, rfl, rfl⟩

theorem accept_eq_ok {α : Type} {v : Except ConvError α} {ok : α → Bool}
    {store : α → ZenfsParamContainer}
    (h : p.accept v ok store = .ok p') :
    ∃ x, v = .ok x ∧ p' = if ok x then store x else p := map_eq_ok h

/-- A field that is not stored stays as it is. -/
theorem map_frame {α γ : Type} {v : Except ConvError α} {store : α → ZenfsParamContainer}
    {field : ZenfsParamContainer → γ} (h : v.map store = .ok p')
    (hstore : ∀ x, field (store x) = field p) : field p' = field p := by
  obtain ⟨x, -, rfl⟩ := map_eq_ok h
  exact hstore x

theorem accept_frame {α γ : Type} {v : Except ConvError α} {ok : α → Bool}
    {store : α → ZenfsParamContainer}
    {field : ZenfsParamContainer → γ} (h : p.accept v ok store = .ok p')
    (hstore : ∀ x, field (store x) = field p) : field p' = field p := by
  refine map_frame h fun x ↦ ?_
  split
  · exact hstore x
  · rfl

theorem ofInt_lt {n : Int} (h : 0 ≤ n) (h' : n < 100) : UInt8.ofInt n < 100 := by
  rw [UInt8.lt_iff_toNat_lt, UInt8.ofInt]
  simp only [UInt8.toNat_ofNat', UInt8.reduceToNat]
  omega

/-- A boundary and the zone counts are only stored under their own names. -/
theorem set_frame (h : p.set value type = .ok p') :
    (type ≠ .min_boundary → p'.minBoundary = p.minBoundary) ∧
      (type ≠ .zones_to_open → p'.zonesToOpen = p.zonesToOpen) := by
  constructor <;> intro hne <;> cases type <;>
    first
    | exact absurd rfl hne
    | exact accept_frame h fun _ ↦ rfl
    | exact map_frame h fun _ ↦ rfl
    | cases h; rfl

theorem set_minBoundary (h : p.set value type = .ok p') :
    p'.minBoundary = p.minBoundary ∨ p'.minBoundary < 100 := by
  by_cases htype : type = .min_boundary
  · subst htype
    obtain ⟨n, -, rfl⟩ := accept_eq_ok h
    split
    · next hn =>
        obtain ⟨h0, h100⟩ := Bool.and_eq_true_iff.mp hn
        exact .inr (ofInt_lt (of_decide_eq_true h0) (of_decide_eq_true h100))
    · exact .inl rfl
  · exact .inl ((set_frame h).1 htype)

/-- The smaller boundary has two digits at most. -/
theorem load_minBoundary (hp : p.minBoundary < 100) (h : ZenfsParamContainer.load e p = .ok p') :
    p'.minBoundary < 100 := by
  unfold ZenfsParamContainer.load at h
  split at h
  · cases h
    exact hp
  · exact (set_minBoundary h).elim (fun heq ↦ heq ▸ hp) id

theorem stoi_eq_ok {n : Int} (h : stoi value = .ok n) : decimal? value = some n := by
  unfold stoi convert at h
  split at h
  · cases h
  · next x hx =>
      split at h
      · cases h
        exact hx
      · cases h

theorem parseZonesToOpen_cons {token : Text} {tokens : List Text} {zones : List UInt8}
    (h : parseZonesToOpen (token :: tokens) = .ok zones) :
    ∃ n rest, decimal? token = some n ∧ parseZonesToOpen tokens = .ok rest ∧
      zones = if 0 ≤ n ∧ n ≤ 255 then UInt8.ofInt n :: rest else rest := by
  rw [parseZonesToOpen] at h
  cases hn : stoi token with
  | error e =>
      rw [hn] at h
      cases h
  | ok n =>
      cases hrest : parseZonesToOpen tokens with
      | error e =>
          rw [hn, hrest] at h
          cases h
      | ok rest =>
          rw [hn, hrest] at h
          cases h
          exact ⟨n, rest, stoi_eq_ok hn, rfl, rfl⟩

/-- The loop over the pieces takes the numbers up to 255. -/
theorem length_parseZonesToOpen {tokens : List Text} {zones : List UInt8}
    (h : parseZonesToOpen tokens = .ok zones) :
    zones.length = ((tokens.filterMap decimal?).filter fun n ↦ 0 ≤ n ∧ n ≤ 255).length := by
  induction tokens generalizing zones with
  | nil =>
      cases h
      rfl
  | cons token tokens ih =>
      obtain ⟨n, rest, hn, hrest, rfl⟩ := parseZonesToOpen_cons h
      rw [List.filterMap_cons_some hn]
      by_cases hc : 0 ≤ n ∧ n ≤ 255
      · rw [if_pos hc, List.filter_cons_of_pos (by simpa using hc), List.length_cons,
          List.length_cons, ih hrest]
      · rw [if_neg hc, List.filter_cons_of_neg (by simpa using hc), ih hrest]

theorem set_zonesToOpen (h : p.set value type = .ok p') :
    p'.zonesToOpen.length =
      if type = .zones_to_open ∧ zoneCounts value ≠ [] then (zoneCounts value).length
      else p.zonesToOpen.length := by
  by_cases htype : type = .zones_to_open
  · subst htype
    obtain ⟨zones, hzones, rfl⟩ := accept_eq_ok h
    have hlength : zones.length = (zoneCounts value).length := length_parseZonesToOpen hzones
    have hempty : zones = [] ↔ zoneCounts value = [] := by
      rw [← List.length_eq_zero_iff, hlength, List.length_eq_zero_iff]
    by_cases hc : zones = []
    · rw [if_neg (by simp [hc]), if_neg fun h ↦ h.2 (hempty.mp hc)]
    · rw [if_pos (by simpa using hc), if_pos ⟨rfl, fun h ↦ hc (hempty.mpr h)⟩]
      exact hlength
  · rw [if_neg fun h ↦ htype h.1, (set_frame h).2 htype]

theorem load_zonesToOpen (h : ZenfsParamContainer.load e p = .ok p') :
    p'.zonesToOpen.length = (countsOf e).getD p.zonesToOpen.length := by
  unfold ZenfsParamContainer.load at h
  split at h
  · next hnone =>
      cases h
      simp [countsOf, hnone]
  · next type htype =>
      rw [set_zonesToOpen h, countsOf, htype]
      simp only [Option.some_inj]
      by_cases hc : type = .zones_to_open ∧ zoneCounts e.2 ≠ []
      · rw [if_pos hc, if_pos hc, Option.getD_some]
      · rw [if_neg hc, if_neg hc, Option.getD_none]

end Fields

/-! ## The loop -/

section Loop

variable {p p' : ZenfsParamContainer} {infile rest : Text} {e : Text × Text}

theorem readEntry_eq_some (h : readEntry infile = some (e, rest)) :
    ∃ rest', Words.extract isSpace infile = some (e.1, rest') ∧
      Words.extract isSpace rest' = some (e.2, rest) := by
  obtain ⟨⟨type, rest'⟩, htype, h⟩ := Option.bind_eq_some_iff.mp h
  obtain ⟨⟨value, rest''⟩, hvalue, h⟩ := Option.map_eq_some_iff.mp h
  cases h
  exact ⟨rest', htype, hvalue⟩

theorem length_lt_of_readEntry (h : readEntry infile = some (e, rest)) :
    rest.length < infile.length := by
  obtain ⟨rest', htype, hvalue⟩ := readEntry_eq_some h
  exact (Words.length_lt_of_extract hvalue).trans (Words.length_lt_of_extract htype)

theorem entries_of_readEntry (h : readEntry infile = some (e, rest)) :
    entries infile = e :: entries rest := by
  obtain ⟨rest', htype, hvalue⟩ := readEntry_eq_some h
  rw [entries, Words.words_of_extract htype, Words.words_of_extract hvalue, entries.pairs]
  rfl

theorem entries_of_readEntry_none (h : readEntry infile = none) : entries infile = [] := by
  cases htype : Words.extract isSpace infile with
  | none =>
      rw [entries, Words.words_of_extract_none htype]
      rfl
  | some first =>
      obtain ⟨type, rest⟩ := first
      have hvalue : Words.extract isSpace rest = none := by
        rw [readEntry, htype] at h
        exact Option.map_eq_none_iff.mp h
      rw [entries, Words.words_of_extract htype, Words.words_of_extract_none hvalue]
      rfl

/-- The loop loads the pairs of the text one after the other. -/
theorem run_turn (p : ZenfsParamContainer) (infile : Text) :
    Stream.run turn infile p = Stream.actAll ZenfsParamContainer.load (entries infile) p :=
  Stream.run_readThen length_lt_of_readEntry entries_of_readEntry_none entries_of_readEntry infile p

/-- A file is loaded exactly if all its values convert. -/
theorem loadParamsFromFile_ok_iff :
    (∃ p', loadParamsFromFile p infile = .ok p') ↔ Converts infile := by
  rw [loadParamsFromFile, run_turn, map_ok_iff]
  have hload : ∀ (e : Text × Text) (p : ZenfsParamContainer),
      (∃ p', ZenfsParamContainer.load e p = .ok p') ↔ ∀ type ∈ find? paramNames e.1,
      type.Converts e.2 :=
    fun _ _ ↦ load_ok_iff
  exact Stream.actAll_ok_iff hload

theorem loadParamsFromFile_eq_ok (h : loadParamsFromFile p infile = .ok p') :
    ∃ q, Stream.actAll ZenfsParamContainer.load (entries infile) p = .ok q ∧
    p' = q.orderBoundaries := by
  rw [loadParamsFromFile, run_turn] at h
  exact map_eq_ok h

theorem orderBoundaries_lt (hp : p.minBoundary < 100) :
    p.orderBoundaries.minBoundary < p.orderBoundaries.maxBoundary := by
  unfold ZenfsParamContainer.orderBoundaries
  split
  · rw [UInt8.lt_iff_toNat_lt] at hp ⊢
    rw [UInt8.toNat_add]
    simp only [UInt8.reduceToNat] at hp ⊢
    omega
  · next h => exact UInt8.not_le.mp h

/-- The boundaries are in order after every load that returns. -/
theorem minBoundary_lt_maxBoundary (hp : p.minBoundary < 100)
    (h : loadParamsFromFile p infile = .ok p') : p'.minBoundary < p'.maxBoundary := by
  obtain ⟨q, hq, rfl⟩ := loadParamsFromFile_eq_ok h
  exact orderBoundaries_lt (Stream.actAll_invariant (I := fun p ↦ p.minBoundary < 100)
    load_minBoundary hp hq)

/-- `zones_to_open` is as long as the last list that was taken. -/
theorem length_zonesToOpen (h : loadParamsFromFile p infile = .ok p') :
    p'.zonesToOpen.length = ((entries infile).filterMap countsOf).getLast?.getD
      p.zonesToOpen.length := by
  obtain ⟨q, hq, rfl⟩ := loadParamsFromFile_eq_ok h
  have horder : q.orderBoundaries.zonesToOpen = q.zonesToOpen := by
    unfold ZenfsParamContainer.orderBoundaries
    split <;> rfl
  rw [horder]
  exact Stream.actAll_last (f := fun p ↦ p.zonesToOpen.length) load_zonesToOpen hq

end Loop

theorem isSome_mapM_iff {α β : Type} {f : α → Option β} {as : List α} :
    (as.mapM f).isSome ↔ ∀ a ∈ as, (f a).isSome := by
  induction as with
  | nil => simp
  | cons a as ih =>
      rw [List.mapM_cons, List.forall_mem_cons, ← ih]
      cases f a <;> cases as.mapM f <;> simp

theorem printStats_isSome_iff (p : ZenfsParamContainer) :
    (printStats p).isSome ↔ 10 ≤ p.zonesToOpen.length := by
  have hzones : ((List.range 10).mapM fun i ↦
      (p.zonesToOpen[i]?).map fun zones ↦ (" %u", Arg.number zones.toNat)).isSome ↔
        10 ≤ p.zonesToOpen.length := by
    simp only [isSome_mapM_iff, List.mem_range, Option.isSome_map, isSome_getElem?]
    constructor
    · exact fun h ↦ h 9 (by decide)
    · exact fun h i hi ↦ Nat.lt_of_lt_of_le hi h
  rw [← hzones, printStats]
  simp only [bind_pure_comp, Option.map_eq_map, Option.isSome_map]

theorem safeToLoad_iff (infile : Text) :
    SafeToLoad infile ↔ Converts infile ∧ LongEnough infile := by
  have hlong : ∀ {p}, loadParamsFromFile {} infile = .ok p →
      ((printStats p).isSome ↔ LongEnough infile) := by
    intro p hp
    rw [printStats_isSome_iff, length_zonesToOpen hp, LongEnough]
    cases ((entries infile).filterMap countsOf).getLast? <;> simp
  constructor
  · rintro ⟨p, hp, -, -, -, -, hprint⟩
    exact ⟨loadParamsFromFile_ok_iff.mp ⟨p, hp⟩, (hlong hp).mp hprint⟩
  · rintro ⟨hconverts, henough⟩
    obtain ⟨p, hp⟩ := loadParamsFromFile_ok_iff.mpr hconverts
    have hdefault : ({} : ZenfsParamContainer).minBoundary < 100 := by decide
    have hmin := minBoundary_lt_maxBoundary hdefault hp
    have hstart := p.gc.startLevel_mem
    have hstop := p.gc.stopLevel_mem
    have hslope := p.gc.slope_mem
    exact ⟨p, hp, by omega, by omega, by omega, hmin, (hlong hp).mpr henough⟩

/-- `params.txt`, which lists four zone counts. -/
def paramsTxt : Text :=
  ["logname plaza-adv-7.0.log", "nearest_newzone_threshold 7.0", "average_value_size 4096",
    "gc_pause_seconds 10", "gc_start_level 5", "gc_stop_level 15", "gc_slope 3",
    "gc_type kImprovedGC",
    "reserve_zone_count 10", "buffer_size_megabytes 1", "fragmentation_enabled 1",
    "upper_level_policy kPlazaAdvanced", "upper_level_policy_fallback kArrivalTimeBased",
    "lower_level_policy kPlazaAdvanced", "lower_level_policy_fallback kArrivalTimeBased",
    "middle_level_policy kPlazaAdvanced", "middle_level_policy_fallback kArrivalTimeBased",
    "min_boundary 1",
    "max_boundary 4", "real_caza 1", "real_zonekv 1", "real_oaza 1", "zones_to_open 1,1,8,8",
    "zone_fill_threshold 0.5", "dynamic_level_adjustment 0", "log_zonestats_placement_delete 1",
    "log_zonestats_placement_delete_verbose 0"].flatMap fun line ↦ line.toList ++ ['\n']

theorem exists_unsafe_files : ¬ SafeToLoad paramsTxt ∧ ¬ SafeToLoad "real_caza true".toList := by
  constructor
  · rintro ⟨p, hp, -, -, -, -, hprint⟩
    have hfour : (loadParamsFromFile {} paramsTxt).toOption.map (fun p ↦ (printStats p).isSome) =
        some false := by
      decide +kernel
    rw [hp] at hfour
    simp [Except.toOption, hprint] at hfour
  · rintro ⟨p, hp, -⟩
    have hthrown : (loadParamsFromFile {} "real_caza true".toList).toOption.isNone = true := by
      decide +kernel
    rw [hp] at hthrown
    cases hthrown

end Params

end ZenFs
