import ZenFs.File.Basic
import ZenFs.Lib.JsonText

/-!
# The dump of a filesystem

`zenfs_tool_dump` writes the zones and the files as a JSON text, and `zen-dump.py` reads it.
The encoders put the text together by hand.
-/

namespace ZenFs

namespace Tool

open Json

/-! ## The encoders -/

/-- A zone with the hint of the data in it. -/
structure DumpedZone extends Zone where
  lifetime : Nat := 0
deriving DecidableEq, Repr

/-- A number under its name. -/
def field (key : String) (n : Nat) : String := "\"" ++ key ++ "\":" ++ toString n

/-- `Zone::EncodeJson`. -/
def DumpedZone.encodeJson (z : DumpedZone) : String :=
  "\x7b" ++ field "start" z.start ++ "," ++ field "capacity" z.capacity ++ "," ++
    field "max_capacity" z.maxCapacity ++ "," ++ field "wp" z.wp ++ "," ++
    field "lifetime" z.lifetime ++ "," ++
    field "used_capacity" z.usedCapacity ++ field "reset_count" z.resetCount ++
    field "finish_count" z.finishCount ++ "\x7d"

/-- The loops of the encoders, with `first_element`. -/
def encodeLoop {α : Type} (encode : α → String) : Bool → List α → String
  | _, [] => ""
  | first_element, a :: as =>
      (if first_element then "" else ",") ++ encode a ++ encodeLoop encode false as

/-- `ZonedBlockDevice::EncodeJsonZone`. -/
def encodeJsonZone (zones : List DumpedZone) : String :=
  "[" ++ encodeLoop DumpedZone.encodeJson true zones ++ "]"

/-- `ZonedBlockDevice::EncodeJson`. -/
def encodeJsonZbd (meta_zones io_zones : List DumpedZone) : String :=
  "\x7b" ++ "\"meta\":" ++ encodeJsonZone meta_zones ++
    ",\"io\":" ++ encodeJsonZone io_zones ++ "\x7d"

/-- `ZoneExtent::EncodeJson`. -/
def encodeJsonExtent (e : ZoneExtent) : String :=
  "\x7b" ++ field "start" e.start ++ "," ++ field "length" e.length ++ "\x7d"

/-- `ZoneFile::EncodeJson`. -/
def encodeJsonFile (f : ZoneFile) : String :=
  "\x7b" ++ field "id" f.fileId ++ "," ++ field "size" f.fileSize ++ "," ++ field "hint"
    f.lifetime ++ "," ++
    "\"filename\":[" ++ encodeLoop (fun name ↦ "\"" ++ name ++ "\"") true f.linkfiles ++ "]," ++
    "\"extents\":[" ++ encodeLoop encodeJsonExtent true f.extents ++ "]\x7d"

/-- `ZenFS::EncodeJson`. -/
def encodeJsonFs (files : List (Name × ZoneFile)) : String :=
  "[" ++ encodeLoop (fun file ↦ encodeJsonFile file.2) true files ++ "]"

/-- What `zenfs_tool_dump` writes. -/
def zenfsToolDump (meta_zones io_zones : List DumpedZone) (files : List (Name × ZoneFile)) :
    String :=
  "\x7b\"zones\":" ++ encodeJsonZbd meta_zones io_zones ++
    ",\"files\":" ++ encodeJsonFs files ++ "\x7d"

/-! ## The reader -/

/-- `data[key]`, where it is an integer. -/
def intAt (data : Json) (key : String) : Option Int := (data.get (code key)).bind int?

/-- `data[key]`, where it is a list. -/
def itemsAt (data : Json) (key : String) : Option (List Json) := (data.get (code key)).bind items

/-- The `Zone` of the reader. -/
structure ZoneData where
  zone_id : Int
  start : Int
  capacity : Int
  max_capacity : Int
  wp : Int
  lifetime : Int
  used_capacity : Int
deriving DecidableEq, Repr

/-- `to_zone`. -/
def toZone (input_data : Json × Nat) : Option ZoneData := do
  let (zone_json, idx) := input_data
  return {
    zone_id := idx
    start := ← intAt zone_json "start"
    capacity := ← intAt zone_json "capacity"
    max_capacity := ← intAt zone_json "max_capacity"
    wp := ← intAt zone_json "wp"
    lifetime := ← intAt zone_json "lifetime"
    used_capacity := ← intAt zone_json "used_capacity" }

/-- The counters of a zone, which `to_zone` leaves out. -/
def toCounters (zone_json : Json) : Option (Int × Int) := do
  return (← intAt zone_json "reset_count", ← intAt zone_json "finish_count")

/-- `data["zones"][table]`. -/
def zoneTable (data : Json) (table : String) : Option (List Json) :=
  (data.get (code "zones")).bind fun zones ↦ itemsAt zones table

/-- `get_meta_zones` and `get_io_zones`. -/
def getZones (data : Json) (table : String) : Option (List ZoneData) :=
  (zoneTable data table).bind fun zones ↦ zones.zipIdx.mapM toZone

def getCounters (data : Json) (table : String) : Option (List (Int × Int)) :=
  (zoneTable data table).bind fun zones ↦ zones.mapM toCounters

/-- The `File` of the reader, with the start and the length of each extent. -/
structure FileData where
  file_id : Int
  filename : List Text
  size : Int
  hint : Int
  extents : List (Int × Int)
deriving DecidableEq, Repr

/-- `extent["start"]` and `extent["length"]`. -/
def toExtent (extent : Json) : Option (Int × Int) := do
  return (← intAt extent "start", ← intAt extent "length")

/-- `to_file`. -/
def toFile (file_json : Json) : Option FileData := do
  return {
    file_id := ← intAt file_json "id"
    filename := ← (← itemsAt file_json "filename").mapM text?
    size := ← intAt file_json "size"
    hint := ← intAt file_json "hint"
    extents := ← (← itemsAt file_json "extents").mapM toExtent }

/-- `get_files`. -/
def getFiles (data : Json) : Option (List FileData) :=
  (itemsAt data "files").bind fun files ↦ files.mapM toFile

/-! ## What the reader should see -/

def DumpedZone.data (z : DumpedZone) (idx : Nat) : ZoneData where
  zone_id := idx
  start := z.start
  capacity := z.capacity
  max_capacity := z.maxCapacity
  wp := z.wp
  lifetime := z.lifetime
  used_capacity := z.usedCapacity

def extentData (e : ZoneExtent) : Int × Int := (e.start, e.length)

def fileData (f : ZoneFile) : FileData where
  file_id := f.fileId
  filename := f.linkfiles.map code
  size := f.fileSize
  hint := f.lifetime
  extents := f.extents.map extentData

/-- The reader finds the zones of a table. -/
structure FindsZones (data : Json) (table : String) (zones : List DumpedZone) : Prop where
  found : getZones data table = some (zones.zipIdx.map fun z ↦ z.1.data z.2)
  counted : getCounters data table =
    some (zones.map fun z ↦ ((z.resetCount : Int), (z.finishCount : Int)))

/-- The dump is a JSON text, and the reader finds the zones and the files in it. -/
def ReadsBack (meta_zones io_zones : List DumpedZone) (files : List (Name × ZoneFile)) : Prop :=
  ∃ data, read (zenfsToolDump meta_zones io_zones files).toList = some data ∧
    FindsZones data "meta" meta_zones ∧ FindsZones data "io" io_zones ∧
      getFiles data = some (files.map fun file ↦ fileData file.2)

/-- A name without quotes, backslashes and control characters. -/
def Clean (name : Name) : Prop := ∀ c ∈ name.toList, c ≠ '"' ∧ c ≠ '\\' ∧ 0x20 ≤ c.toNat

/-! ## The value that the files stand for -/

def extentJson (e : ZoneExtent) : Json :=
  .obj [(code "start", nat e.start), (code "length", nat e.length)]

def fileJson (f : ZoneFile) : Json :=
  .obj [
    (code "id", nat f.fileId),
    (code "size", nat f.fileSize),
    (code "hint", nat f.lifetime),
    (code "filename", .arr (f.linkfiles.map fun name ↦ .str (code name))),
    (code "extents", .arr (f.extents.map extentJson))]

/-- The files behind two empty tables. -/
def filesJson (files : List (Name × ZoneFile)) : Json :=
  .obj [
    (code "zones", .obj [(code "meta", .arr []), (code "io", .arr [])]),
    (code "files", .arr (files.map fun file ↦ fileJson file.2))]

@[simp] theorem field_toList (key : String) (n : Nat) :
    (field key n).toList = '"' :: key.toList ++ '"' :: ':' :: Nat.toDigits 10 n := by
  simp [field]

/-- What a loop writes is spelled like an array. -/
theorem encodeLoop_toList {α : Type} {encode : α → String} {value : α → Json}
    (h : ∀ a, (encode a).toList = compact (value a)) (as : List α) :
    (encodeLoop encode true as).toList =
    (List.intercalate [.comma] (elements (as.map value))).flatMap spell := by
  have htail : ∀ (a : α) (as : List α), (encodeLoop encode true (a :: as)).toList =
      (List.intercalate [.comma] (elements ((a :: as).map value))).flatMap spell := by
    intro a as
    induction as generalizing a with
    | nil => simp [encodeLoop, elements, h, compact]
    | cons b bs ih =>
      have hbs := ih b
      simp only [encodeLoop, elements, List.map_cons, List.intercalate_cons_cons,
        List.flatMap_append, String.toList_append] at hbs ⊢
      rw [← hbs, h a]
      simp [compact]
  cases as with
  | nil => rfl
  | cons a as => exact htail a as

theorem encodeJsonExtent_toList (e : ZoneExtent) :
    (encodeJsonExtent e).toList = compact (extentJson e) := by
  unfold encodeJsonExtent
  simp [extentJson, compact, tokens, members, nat]

theorem encodeJsonFile_toList (f : ZoneFile) :
    (encodeJsonFile f).toList = compact (fileJson f) := by
  have hname : ∀ name : Name, ("\"" ++ name ++ "\"").toList = compact (.str (code name)) := by
    intro name
    simp [compact, tokens]
  unfold encodeJsonFile
  simp [fileJson, compact, tokens, members, nat, encodeLoop_toList hname,
    encodeLoop_toList encodeJsonExtent_toList]

/-- Without zones the dump is spelled like the value. -/
theorem zenfsToolDump_toList (files : List (Name × ZoneFile)) :
    (zenfsToolDump [] [] files).toList = compact (filesJson files) := by
  unfold zenfsToolDump
  simp [encodeJsonZbd, encodeJsonZone, encodeJsonFs, filesJson, compact, tokens, members, elements,
    encodeLoop, encodeLoop_toList fun file : Name × ZoneFile ↦ encodeJsonFile_toList file.2]

/-! ## The reader on the value -/

theorem toExtent_extentJson (e : ZoneExtent) : toExtent (extentJson e) = some (extentData e) := rfl

theorem toFile_fileJson (f : ZoneFile) : toFile (fileJson f) = some (fileData f) := by
  have hnames : itemsAt (fileJson f) "filename" =
      some (f.linkfiles.map fun name ↦ .str (code name)) := rfl
  have hextents : itemsAt (fileJson f) "extents" = some (f.extents.map extentJson) := rfl
  have hid : intAt (fileJson f) "id" = some (f.fileId : Int) := rfl
  have hsize : intAt (fileJson f) "size" = some (f.fileSize : Int) := rfl
  have hhint : intAt (fileJson f) "hint" = some (f.lifetime : Int) := rfl
  have htexts : (f.linkfiles.map fun name ↦ Json.str (code name)).mapM text? =
      some (f.linkfiles.map code) :=
    mapM_map_eq_some (fun name ↦ show text? (.str (code name)) = some (code name) from rfl)
      f.linkfiles
  have hpairs : (f.extents.map extentJson).mapM toExtent = some (f.extents.map extentData) :=
    mapM_map_eq_some toExtent_extentJson f.extents
  simp [toFile, hnames, hextents, hid, hsize, hhint, htexts, hpairs, fileData]

theorem getFiles_filesJson (files : List (Name × ZoneFile)) :
    getFiles (filesJson files) = some (files.map fun file ↦ fileData file.2) := by
  have hfiles : itemsAt (filesJson files) "files" = some (files.map fun file ↦ fileJson file.2) :=
    rfl
  rw [getFiles, hfiles, Option.bind_some]
  exact mapM_map_eq_some (fun file ↦ toFile_fileJson file.2) files

/-! ## What the reader finds takes room -/

theorem weight_nat_le {data : Json} {key : String} {n : Nat} (h : intAt data key = some (n : Int)) :
    ∃ q, data.get (code key) = some q ∧ weight width (nat n) ≤ weight width q := by
  obtain ⟨q, hq, hint⟩ := Option.bind_eq_some_iff.mp h
  refine ⟨q, hq, ?_⟩
  unfold int? at hint
  split at hint
  · next negative m =>
    have hm : m = n := by
      rw [Option.some.injEq] at hint
      split at hint <;> omega
    rw [hm]
    exact le_rfl
  · cases hint

theorem weight_items_le {data : Json} {key : String} {us vs : List Json}
    (h : itemsAt data key = some vs)
    (hle : List.Forall₂ (fun u v ↦ weight width u ≤ weight width v) us vs) :
    ∃ q, data.get (code key) = some q ∧ weight width (.arr us) ≤ weight width q := by
  obtain ⟨q, hq, hitems⟩ := Option.bind_eq_some_iff.mp h
  cases q <;> cases hitems
  exact ⟨_, hq, weight_arr_le hle⟩

theorem weight_extentJson_le {v : Json} {e : ZoneExtent} (h : toExtent v = some (extentData e)) :
    weight width (extentJson e) ≤ weight width v := by
  simp only [toExtent, extentData, Option.bind_eq_bind, Option.bind_eq_some_iff, Option.pure_def,
    Option.some.injEq, Prod.mk.injEq] at h
  obtain ⟨start, hstart, length, hlength, rfl, rfl⟩ := h
  have hkeys : [code "start", code "length"].Nodup := by decide
  refine weight_obj_le (List.cons_ne_nil _ _) hkeys ?_
  simp only [List.forall_mem_cons]
  exact ⟨weight_nat_le hstart, weight_nat_le hlength, fun _ h ↦ nomatch h⟩

theorem weight_text_le {v : Json} {s : Text} (h : text? v = some s) :
    weight width (.str s) ≤ weight width v := by
  cases v <;> cases h
  exact le_rfl

/-- An array takes the room of the values that are found in another one. -/
theorem forall₂_weight {α β : Type} {f : Json → Option β} {g : α → β} {value : α → Json}
    {as : List α} {vs : List Json}
    (h : vs.mapM f = some (as.map g))
    (hle : ∀ a v, f v = some (g a) → weight width (value a) ≤ weight width v) :
    List.Forall₂ (fun u v ↦ weight width u ≤ weight width v) (as.map value) vs := by
  have hfound := forall₂_of_mapM h
  rw [List.forall₂_map_left_iff]
  rw [List.forall₂_map_right_iff] at hfound
  exact hfound.flip.imp fun a v ↦ hle a v

theorem weight_fileJson_le {v : Json} {f : ZoneFile} (h : toFile v = some (fileData f)) :
    weight width (fileJson f) ≤ weight width v := by
  simp only [toFile, fileData, Option.bind_eq_bind, Option.bind_eq_some_iff, Option.pure_def,
    Option.some.injEq, FileData.mk.injEq] at h
  obtain ⟨id, hid, names, hnames, texts, htexts, size, hsize, hint, hhint, extents, hextents,
    pairs, hpairs, rfl, rfl, rfl, rfl, rfl⟩ := h
  have hkeys : [code "id", code "size", code "hint", code "filename", code "extents"].Nodup := by
    decide
  refine weight_obj_le (List.cons_ne_nil _ _) hkeys ?_
  simp only [List.forall_mem_cons]
  exact ⟨weight_nat_le hid, weight_nat_le hsize, weight_nat_le hhint,
    weight_items_le hnames (forall₂_weight htexts fun _ _ ↦ weight_text_le),
    weight_items_le hextents (forall₂_weight hpairs fun _ _ ↦ weight_extentJson_le),
    fun _ h ↦ nomatch h⟩

theorem weight_emptyTable_le {data zones : Json} {table : String} (h : FindsZones data table [])
    (hzones : data.get (code "zones") = some zones) :
    ∃ q, zones.get (code table) = some q ∧ weight width (.arr []) ≤ weight width q := by
  obtain ⟨vs, hvs, hmap⟩ := Option.bind_eq_some_iff.mp h.counted
  rw [zoneTable, hzones, Option.bind_some] at hvs
  have hnil : vs = [] := List.forall₂_nil_right_iff.mp (forall₂_of_mapM hmap)
  subst hnil
  exact weight_items_le hvs .nil

theorem weight_filesJson_le {data : Json} {files : List (Name × ZoneFile)}
    (hmeta : FindsZones data "meta" [])
    (hio : FindsZones data "io" [])
    (hfiles : getFiles data = some (files.map fun file ↦ fileData file.2)) :
    weight width (filesJson files) ≤ weight width data := by
  obtain ⟨zones, hzones⟩ : ∃ zones, data.get (code "zones") = some zones := by
    obtain ⟨vs, hvs, -⟩ := Option.bind_eq_some_iff.mp hmeta.counted
    obtain ⟨zones, hzones, -⟩ := Option.bind_eq_some_iff.mp hvs
    exact ⟨zones, hzones⟩
  obtain ⟨vs, hvs, hmap⟩ := Option.bind_eq_some_iff.mp hfiles
  have htables : weight width (.obj [(code "meta", .arr []), (code "io", .arr [])]) ≤
      weight width zones := by
    refine weight_obj_le (List.cons_ne_nil _ _) (by decide) ?_
    simp only [List.forall_mem_cons]
    exact ⟨weight_emptyTable_le hmeta hzones, weight_emptyTable_le hio hzones, fun _ h ↦ nomatch h⟩
  have hkeys : [code "zones", code "files"].Nodup := by decide
  refine weight_obj_le (List.cons_ne_nil _ _) hkeys ?_
  simp only [List.forall_mem_cons]
  exact ⟨⟨zones, hzones, htables⟩,
    weight_items_le hvs (forall₂_weight hmap fun _ _ ↦ weight_fileJson_le), fun _ h ↦ nomatch h⟩

/-! ## The dump of a zone -/

/-- A number under its name. -/
def fieldTokens (key : String) (n : Nat) : List Token :=
  [.str (code key), .colon, .num { whole := n }]

/-- The tokens of a zone up to the number that no separator follows. -/
def zoneTokens (z : DumpedZone) : List Token :=
  .openObj :: fieldTokens "start" z.start ++ .comma :: fieldTokens "capacity" z.capacity ++
    .comma :: fieldTokens "max_capacity" z.maxCapacity ++ .comma :: fieldTokens "wp" z.wp ++
    .comma :: fieldTokens "lifetime" z.lifetime ++ .comma :: fieldTokens "used_capacity"
    z.usedCapacity

theorem spell_fieldTokens (key : String) (n : Nat) :
    (fieldTokens key n).flatMap spell = (field key n).toList := by
  simp [fieldTokens]

theorem encodeJson_toList (z : DumpedZone) :
    ∃ r, z.encodeJson.toList = (zoneTokens z).flatMap spell ++ '"' :: r := by
  have hobj : spell .openObj = "\x7b".toList := rfl
  have hcomma : spell .comma = ",".toList := rfl
  refine ⟨"reset_count".toList ++ '"' :: ':' :: (Nat.toDigits 10 z.resetCount ++
    ((field "finish_count" z.finishCount).toList ++ "\x7d".toList)), ?_⟩
  unfold DumpedZone.encodeJson
  simp only [zoneTokens, List.cons_append, List.flatMap_append, List.flatMap_cons,
    spell_fieldTokens, String.toList_append, List.append_assoc, hobj, hcomma]
  rw [field_toList "reset_count"]
  simp only [List.cons_append, List.append_assoc]

theorem plain_fieldTokens {key : String} (h : plainString key = true) (n : Nat) :
    ∀ t ∈ fieldTokens key n, t.Plain := by
  simp only [fieldTokens, List.forall_mem_cons]
  exact ⟨plain_code h, trivial, rfl, fun _ h ↦ nomatch h⟩

theorem plain_zoneTokens (z : DumpedZone) : ∀ t ∈ zoneTokens z, t.Plain := by
  simp only [zoneTokens, List.cons_append, List.forall_mem_cons, List.forall_mem_append]
  refine ⟨trivial, ⟨⟨⟨⟨⟨?_, trivial, ?_⟩, trivial, ?_⟩, trivial, ?_⟩, trivial, ?_⟩, trivial, ?_⟩⟩
  all_goals exact plain_fieldTokens (by decide) _

theorem run_zoneTokens (z : DumpedZone) (fs : List Frame) :
    ∃ v fs', run (.firstElement fs) (zoneTokens z) = some (.after v fs') := ⟨_, _, rfl⟩

/-- A zone in front of a table makes the text malformed. -/
theorem read_zone {ts : List Token} {fs : List Frame} (hts : ∀ t ∈ ts, t.Plain)
    (hrun : run (.value []) ts = some (.firstElement fs)) (z : DumpedZone) (r : List Char) :
    read (ts.flatMap spell ++ (z.encodeJson.toList ++ r)) = none := by
  obtain ⟨v, fs', hzone⟩ := run_zoneTokens z fs
  obtain ⟨r', hr'⟩ := encodeJson_toList z
  have hall : run (.value []) (ts ++ zoneTokens z) = some (.after v fs') := by
    rw [run_append, hrun, Option.bind_some, hzone]
  have hplain : ∀ t ∈ ts ++ zoneTokens z, t.Plain :=
    List.forall_mem_append.mpr ⟨hts, plain_zoneTokens z⟩
  have hread := read_eq_none hplain hall (r' ++ r)
  rw [List.flatMap_append, List.append_assoc] at hread
  rwa [hr', List.append_assoc]

/-- The tokens in front of the meta zones. -/
def metaTokens : List Token :=
  [.openObj, .str (code "zones"), .colon, .openObj, .str (code "meta"), .colon, .openArr]

/-- The tokens between the tables if there are no meta zones. -/
def ioTokens : List Token := [.closeArr, .comma, .str (code "io"), .colon, .openArr]

theorem plain_metaTokens : ∀ t ∈ metaTokens, t.Plain := by
  simp only [metaTokens, List.forall_mem_cons]
  exact ⟨trivial, plain_code (by decide), trivial, trivial, plain_code (by decide),
    trivial, trivial, fun _ h ↦ nomatch h⟩

theorem plain_ioTokens : ∀ t ∈ ioTokens, t.Plain := by
  simp only [ioTokens, List.forall_mem_cons]
  exact ⟨trivial, trivial, plain_code (by decide), trivial, trivial, fun _ h ↦ nomatch h⟩

/-- With a zone the dump is not a JSON text. -/
theorem read_zenfsToolDump {meta_zones io_zones : List DumpedZone}
    (h : ¬ (meta_zones = [] ∧ io_zones = []))
    (files : List (Name × ZoneFile)) :
    read (zenfsToolDump meta_zones io_zones files).toList = none := by
  cases meta_zones with
  | cons z meta_zones =>
    have hmeta := read_zone plain_metaTokens rfl z
      (encodeLoop DumpedZone.encodeJson false meta_zones ++
        "],\"io\":" ++ encodeJsonZone io_zones ++ "\x7d" ++
        ",\"files\":" ++ encodeJsonFs files ++ "\x7d").toList
    simpa [metaTokens, zenfsToolDump, encodeJsonZbd, encodeJsonZone, encodeLoop] using hmeta
  | nil =>
    cases io_zones with
    | nil => exact absurd ⟨rfl, rfl⟩ h
    | cons z io_zones =>
      have hio := read_zone (List.forall_mem_append.mpr ⟨plain_metaTokens, plain_ioTokens⟩) rfl z
        (encodeLoop DumpedZone.encodeJson false io_zones ++ "]\x7d" ++
          ",\"files\":" ++ encodeJsonFs files ++ "\x7d").toList
      simpa [metaTokens, ioTokens, zenfsToolDump, encodeJsonZbd, encodeJsonZone, encodeLoop]
        using hio

/-! ## When the dump is read back -/

theorem clean_iff {name : Name} : Clean name ↔ plainString name = true := by
  simp only [Clean, plainString, List.all_eq_true]
  refine forall₂_congr fun c _ ↦ ?_
  simp only [plain, Bool.and_eq_true, bne_iff_ne, decide_eq_true_eq, ne_eq,
    Char.toNat_inj, and_assoc]

/-- What holds of the tokens of the files, if it holds of the tokens that do not depend on a
name. -/
theorem forall_mem_filesJson {P : Token → Prop} (hnum : ∀ n, P (.num { whole := n }))
    (hkey : ∀ s : String, plainString s = true → P (.str (code s)))
    (hrest : ∀ t, t.isNum = false → (∀ s, t ≠ .str s) → P t) (files : List (Name × ZoneFile)) :
    (∀ t ∈ tokens (filesJson files), P t) ↔
      ∀ file ∈ files, ∀ name ∈ file.2.linkfiles, P (.str (code name)) := by
  have hobj : ∀ ms, (∀ t ∈ tokens (.obj ms), P t) ↔ ∀ m ∈ ms, P (.str m.1) ∧ ∀ t ∈ tokens m.2,
      P t := fun _ ↦
    forall_mem_obj (hrest _ rfl nofun) (hrest _ rfl nofun) (hrest _ rfl nofun) (hrest _ rfl nofun)
  have harr : ∀ vs, (∀ t ∈ tokens (.arr vs), P t) ↔ ∀ v ∈ vs, ∀ t ∈ tokens v, P t := fun _ ↦
    forall_mem_arr (hrest _ rfl nofun) (hrest _ rfl nofun) (hrest _ rfl nofun)
  have hnat : ∀ n, ∀ t ∈ tokens (nat n), P t := fun n ↦ List.forall_mem_singleton.mpr (hnum n)
  have hstr : ∀ s, (∀ t ∈ tokens (.str s), P t) ↔ P (.str s) := fun _ ↦ List.forall_mem_singleton
  have hextent : ∀ e, ∀ t ∈ tokens (extentJson e), P t := by
    intro e
    rw [extentJson, hobj]
    simp only [List.forall_mem_cons]
    exact ⟨⟨hkey _ (by decide), hnat _⟩, ⟨hkey _ (by decide), hnat _⟩, nofun⟩
  have hfile : ∀ f, (∀ t ∈ tokens (fileJson f), P t) ↔ ∀ name ∈ f.linkfiles,
      P (.str (code name)) := by
    intro f
    rw [fileJson, hobj]
    simp only [List.forall_mem_cons, harr, List.forall_mem_map, hstr]
    exact ⟨fun h ↦ h.2.2.2.1.2, fun h ↦ ⟨⟨hkey _ (by decide), hnat _⟩, ⟨hkey _ (by decide), hnat _⟩,
      ⟨hkey _ (by decide), hnat _⟩, ⟨hkey _ (by decide), h⟩,
      ⟨hkey _ (by decide), fun e _ ↦ hextent e⟩, nofun⟩⟩
  rw [filesJson, hobj]
  simp only [List.forall_mem_cons, hobj, harr, List.forall_mem_map, hfile]
  exact ⟨fun h ↦ h.2.1.2,
    fun h ↦ ⟨⟨hkey _ (by decide), ⟨hkey _ (by decide), nofun⟩, ⟨hkey _ (by decide), nofun⟩, nofun⟩,
    ⟨hkey _ (by decide), h⟩, nofun⟩⟩

theorem readsBack_nil {files : List (Name × ZoneFile)}
    (h : ∀ file ∈ files, ∀ name ∈ file.2.linkfiles, Clean name) : ReadsBack [] [] files := by
  have hplain : ∀ t ∈ tokens (filesJson files), t.Plain := by
    refine (forall_mem_filesJson (fun _ ↦ rfl) (fun _ ↦ plain_code) ?_ files).mpr
      fun file hfile name hname ↦ ?_
    · intro t hnum hstr
      cases t with
      | num n => cases hnum
      | str s => exact absurd rfl (hstr s)
      | _ => trivial
    · exact plain_code (clean_iff.mp (h file hfile name hname))
  refine ⟨filesJson files, ?_, ⟨rfl, rfl⟩, ⟨rfl, rfl⟩, getFiles_filesJson files⟩
  rw [zenfsToolDump_toList, read_compact hplain]

theorem clean_of_readsBack {files : List (Name × ZoneFile)} (h : ReadsBack [] [] files) :
    ∀ file ∈ files, ∀ name ∈ file.2.linkfiles, Clean name := by
  obtain ⟨data, hread, hmeta, hio, hfiles⟩ := h
  rw [zenfsToolDump_toList] at hread
  have hplain := fun s ↦ plain_of_read_compact (s := s) hread (weight_filesJson_le hmeta hio hfiles)
  have hall :=
    (forall_mem_filesJson (P := fun t ↦ ∀ s, t = .str s → ∀ n ∈ s, plain n = true) (by simp)
    ?_ ?_ files).mp
  · intro file hfile name hname
    have hcode := hall (fun t ht s hs ↦ hplain s (hs ▸ ht)) file hfile name hname (code name) rfl
    exact clean_iff.mpr (by simpa [plainString, code] using hcode)
  · rintro s hs _ ⟨⟩
    exact plain_of_mem_code hs
  · intro t _ hstr s hs
    exact absurd hs (hstr s)

/-- The dump is read back exactly if there are no zones and all names are clean. -/
theorem readsBack_iff (meta_zones io_zones : List DumpedZone) (files : List (Name × ZoneFile)) :
    ReadsBack meta_zones io_zones files ↔
      meta_zones = [] ∧ io_zones = [] ∧ ∀ file ∈ files, ∀ name ∈ file.2.linkfiles, Clean name := by
  constructor
  · intro h
    by_cases hzones : meta_zones = [] ∧ io_zones = []
    · obtain ⟨rfl, rfl⟩ := hzones
      exact ⟨rfl, rfl, clean_of_readsBack h⟩
    · obtain ⟨data, hread, -⟩ := h
      rw [read_zenfsToolDump hzones] at hread
      cases hread
  · rintro ⟨rfl, rfl, h⟩
    exact readsBack_nil h

/-- A mounted device with nothing on it, and a file whose name has a quote. -/
theorem exists_unreadable_dumps :
    (¬ ReadsBack
        [{ start := 0, maxCapacity := 4096, capacity := 4096, wp := 0, usedCapacity := 0,
           busy := false, resetCount := 0, finishCount := 0 }]
        [{ start := 4096, maxCapacity := 4096, capacity := 4096, wp := 4096, usedCapacity := 0,
           busy := false, resetCount := 0, finishCount := 0 }] []) ∧
      ¬ ReadsBack [] [] [("a\"b", { fileId := 1, linkfiles := ["a\"b"] })] := by
  constructor
  · rintro ⟨data, hread, -⟩
    rw [read_zenfsToolDump (by simp)] at hread
    cases hread
  · intro h
    have hclean := clean_of_readsBack h _ List.mem_cons_self _ List.mem_cons_self
    exact (hclean '"' (by decide)).1 rfl

end Tool

end ZenFs
