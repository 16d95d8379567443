import ZenFs.File.SparseRoundTrip
import ZenFs.Fs.Catalog
import ZenFs.Lib.Stream
import ZenFs.Meta.Frame

/-!
# The bytes of a file record

`ZoneFile::EncodeTo` writes the fields of a file one after the other, each behind a tag,
and `ZoneFile::DecodeFrom` reads tags and fields until no further tag is found.  Here
both are followed byte by byte: what is decoded is the file record that the rest of the
development works with.
-/

namespace ZenFs

/-- The numbers of variable length of the coding library, with the only properties of them
that decoding depends on. -/
structure Varint32 where
  put : UInt32 → List Byte
  get : List Byte → Option (UInt32 × List Byte)
  get_put : ∀ n rest, get (put n ++ rest) = some (n, rest)
  get_shorter : ∀ {input n rest}, get input = some (n, rest) → rest.length < input.length

/-- `GetFixed32`. -/
def getFixed32 (input : List Byte) : Option (UInt32 × List Byte) :=
  if input.length < 4 then none else some (decodeFixed32 input, input.drop 4)

/-- `GetFixed64`. -/
def getFixed64 (input : List Byte) : Option (Nat × List Byte) :=
  if input.length < 8 then none else some (decodeFixed64 input, input.drop 8)

namespace Varint32

variable (v : Varint32)

/-- `PutLengthPrefixedSlice`. -/
def putLengthPrefixedSlice (slice : List Byte) : List Byte :=
  v.put (UInt32.ofNat slice.length) ++ slice

/-- `GetLengthPrefixedSlice`. -/
def getLengthPrefixedSlice (input : List Byte) : Option (List Byte × List Byte) :=
  match v.get input with
  | none => none
  | some (len, rest) =>
      if rest.length < len.toNat then none else some (rest.take len.toNat, rest.drop len.toNat)

end Varint32

/-- `PutVarint32`: seven bits of the number in a byte, the lowest first, with the top bit set in
all bytes but the last. -/
def putVarint : Nat → Nat → List Byte
  | 0, _ => []
  | fuel + 1, n =>
      if n < 128 then [UInt8.ofNat n] else UInt8.ofNat (n % 128 + 128) :: putVarint fuel (n / 128)

/-- `GetVarint32`. -/
def getVarint : Nat → List Byte → Option (Nat × List Byte)
  | 0, _ | _, [] => none
  | fuel + 1, b :: rest =>
      if b.toNat < 128 then some (b.toNat, rest)
      else (getVarint fuel rest).map fun p ↦ (b.toNat - 128 + 128 * p.1, p.2)

theorem getVarint_put {fuel n : Nat} (h : n < 128 ^ (fuel + 1)) (rest : List Byte) :
    getVarint (fuel + 1) (putVarint (fuel + 1) n ++ rest) = some (n, rest) := by
  have hbyte : ∀ {m : Nat}, m < 256 → (UInt8.ofNat m).toNat = m :=
    fun hm ↦ UInt8.toNat_ofNat_of_lt' hm
  induction fuel generalizing n with
  | zero =>
      rw [Nat.zero_add, Nat.pow_one] at h
      rw [putVarint, if_pos h, List.singleton_append, getVarint, hbyte (by omega), if_pos h]
  | succ fuel ih =>
      rw [putVarint]
      by_cases hlt : n < 128
      · rw [if_pos hlt, List.singleton_append, getVarint, hbyte (by omega), if_pos hlt]
      · have hdiv : n / 128 < 128 ^ (fuel + 1) := Nat.div_lt_of_lt_mul (by rwa [← Nat.pow_succ'])
        rw [if_neg hlt, List.cons_append, getVarint, hbyte (by omega), if_neg (by omega), ih hdiv,
          Option.map_some]
        congr 2
        omega

theorem length_of_getVarint {fuel n : Nat} {input rest : List Byte}
    (h : getVarint fuel input = some (n, rest)) : rest.length < input.length := by
  induction fuel generalizing input n with
  | zero => cases input <;> cases h
  | succ fuel ih =>
      cases input with
      | nil => cases h
      | cons b input =>
          rw [getVarint] at h
          split at h
          · cases h
            exact Nat.lt_succ_self _
          · obtain ⟨p, hp, he⟩ := Option.map_eq_some_iff.mp h
            cases he
            exact (ih hp).trans (Nat.lt_succ_self _)

theorem length_putVarint_le (fuel n : Nat) : (putVarint fuel n).length ≤ fuel := by
  induction fuel generalizing n with
  | zero => exact le_rfl
  | succ fuel ih =>
      rw [putVarint]
      split
      · exact Nat.le_add_left ..
      · exact Nat.succ_le_succ (ih _)

/-- The numbers as they are written by the coding library: at most five bytes. -/
def Varint32.base128 : Varint32 where
  put := fun n ↦ putVarint 5 n.toNat
  get := fun input ↦ (getVarint 5 input).map fun p ↦ (UInt32.ofNat p.1, p.2)
  get_put := by
    intro n rest
    rw [getVarint_put (n.toNat_lt.trans (by decide)), Option.map_some, UInt32.ofNat_toNat]
  get_shorter := by
    intro input n rest h
    obtain ⟨p, hp, he⟩ := Option.map_eq_some_iff.mp h
    cases he
    exact length_of_getVarint hp

/-- The characters of a name are bytes. -/
def nameBytes (n : Name) : List Byte := n.toList.map fun c ↦ UInt8.ofNat c.toNat

/-- `Slice::ToString`. -/
def nameOfBytes (bytes : List Byte) : Name := String.ofList (bytes.map fun b ↦ Char.ofNat b.toNat)

section Coding

variable {input rest slice : List Byte} {n : Nat} {v : Varint32}

@[simp] theorem length_encodeFixed64 (n : Nat) : (encodeFixed64 n).length = 8 := by
  simp [encodeFixed64]

theorem getFixed32_put (n : UInt32) (rest : List Byte) :
    getFixed32 (encodeFixed32 n ++ rest) = some (n, rest) := by
  have hlen := length_encodeFixed32 n
  rw [getFixed32, if_neg (by simp [hlen]), decodeFixed32_encodeFixed32, List.drop_left' hlen]

theorem getFixed64_put (h : n < 2 ^ 64) (rest : List Byte) :
    getFixed64 (encodeFixed64 n ++ rest) = some (n, rest) := by
  have hlen := length_encodeFixed64 n
  have htake : decodeFixed64 (encodeFixed64 n ++ rest) = n := by
    have h := decodeFixed64_encodeFixed64 h
    unfold decodeFixed64 at h ⊢
    rwa [List.take_append_of_le_length hlen.ge]
  rw [getFixed64, if_neg (by simp), htake, List.drop_left' hlen]

theorem length_of_getFixed32 {tag : UInt32} (h : getFixed32 input = some (tag, rest)) :
    rest.length < input.length := by
  unfold getFixed32 at h
  split at h
  · cases h
  · cases h
    rw [List.length_drop]
    omega

theorem length_of_getFixed64 (h : getFixed64 input = some (n, rest)) :
    rest.length ≤ input.length := by
  unfold getFixed64 at h
  split at h
  · cases h
  · cases h
    rw [List.length_drop]
    omega

namespace Varint32

theorem length_le_putLengthPrefixedSlice (v : Varint32) (slice : List Byte) :
    slice.length ≤ (v.putLengthPrefixedSlice slice).length := by
  rw [putLengthPrefixedSlice, List.length_append]
  omega

theorem getLengthPrefixedSlice_put (h : slice.length < 2 ^ 32) (rest : List Byte) :
    v.getLengthPrefixedSlice (v.putLengthPrefixedSlice slice ++ rest) = some (slice, rest) := by
  have hn : (UInt32.ofNat slice.length).toNat = slice.length := UInt32.toNat_ofNat_of_lt' h
  rw [getLengthPrefixedSlice, putLengthPrefixedSlice, List.append_assoc, v.get_put]
  dsimp only
  rw [hn, if_neg (by simp), List.take_left' rfl, List.drop_left' rfl]

theorem length_putLengthPrefixedSlice_le (slice : List Byte) :
    (base128.putLengthPrefixedSlice slice).length ≤ 5 + slice.length := by
  rw [putLengthPrefixedSlice, List.length_append]
  exact Nat.add_le_add_right (length_putVarint_le 5 _) _

theorem length_of_getLengthPrefixedSlice (h : v.getLengthPrefixedSlice input = some (slice, rest)) :
    rest.length < input.length := by
  unfold getLengthPrefixedSlice at h
  split at h
  · cases h
  · next len rest' hget =>
      have := v.get_shorter hget
      split at h
      · cases h
      · cases h
        rw [List.length_drop]
        omega

end Varint32

theorem char_ofNat_toUInt8 {c : Char} (h : c.toNat < 256) :
    Char.ofNat (UInt8.ofNat c.toNat).toNat = c := by
  rw [UInt8.toNat_ofNat', Nat.mod_eq_of_lt h, Char.ofNat_toNat]

theorem nameOfBytes_nameBytes {m : Name} (h : ∀ c ∈ m.toList, c.toNat < 256) :
    nameOfBytes (nameBytes m) = m := by
  have hmap : (m.toList.map fun c ↦ UInt8.ofNat c.toNat).map (fun b ↦ Char.ofNat b.toNat) =
      m.toList := by
    rw [List.map_map]
    exact (List.map_congr_left fun c hc ↦ char_ofNat_toUInt8 (h c hc)).trans (List.map_id _)
  rw [nameOfBytes, nameBytes, hmap, String.ofList_toList]

theorem nameBytes_eq_nil {m : Name} : nameBytes m = [] ↔ m = "" := by
  rw [nameBytes, List.map_eq_nil_iff, String.toList_eq_nil_iff]

end Coding

/-! ## Files -/

namespace ZoneFileTag

def kFileID : UInt32 := 1
def kFileSize : UInt32 := 3
def kWriteLifeTimeHint : UInt32 := 4
def kExtent : UInt32 := 5
def kModificationTime : UInt32 := 6
def kActiveExtentStart : UInt32 := 7
def kIsSparse : UInt32 := 8
def kLinkedFilename : UInt32 := 9

end ZoneFileTag

/-- The values of a file have the types of the source: numbers have 64 bits, the lifetime hint
32, and the characters of names are bytes. -/
structure ZoneFile.Fits (f : ZoneFile) : Prop where
  fileId : f.fileId < 2 ^ 64
  fileSize : f.fileSize < 2 ^ 64
  lifetime : f.lifetime < 2 ^ 32
  extents : ∀ e ∈ f.extents, e.start < 2 ^ 64 ∧ e.length < 2 ^ 64
  mTime : f.mTime < 2 ^ 64
  extentStart : f.extentStart < 2 ^ 64
  linkfiles : ∀ n ∈ f.linkfiles, ∀ c ∈ n.toList, c.toNat < 256

/-- The object that is decoded from a file, with its extents from index `k` on. -/
def ZoneFile.restored (f : ZoneFile) (k : Nat) : ZoneFile where
  fileId := f.fileId
  fileSize := f.fileSize
  lifetime := f.lifetime
  extents := f.extents.drop k
  linkfiles := f.linkfiles
  mTime := f.mTime
  extentStart := f.extentStart
  isSparse := f.isSparse
  nrSyncedExtents := (f.extents.drop k).length

namespace Codec

open ZoneFileTag

/-- `ZoneExtent::EncodeTo`. -/
def encodeExtentTo (start length : Nat) : List Byte := encodeFixed64 start ++ encodeFixed64 length

/-- `ZoneExtent::DecodeFrom`. -/
def decodeExtentFrom (slice : List Byte) : Except Status (Nat × Nat) :=
  if slice.length ≠ 16 then .error (.corruption "Error: length missmatch")
  else .ok (decodeFixed64 slice, decodeFixed64 (slice.drop 8))

variable (v : Varint32)

/-- `ZoneFile::EncodeTo`. -/
def encodeTo (f : ZoneFile) (extent_start : Nat) : List Byte :=
  encodeFixed32 kFileID ++ encodeFixed64 f.fileId ++
  encodeFixed32 kFileSize ++ encodeFixed64 f.fileSize ++
  encodeFixed32 kWriteLifeTimeHint ++ encodeFixed32 (UInt32.ofNat f.lifetime) ++
  ((f.extents.drop extent_start).flatMap fun e ↦
    encodeFixed32 kExtent ++ v.putLengthPrefixedSlice (encodeExtentTo e.start e.length)) ++
  encodeFixed32 kModificationTime ++ encodeFixed64 f.mTime ++
  encodeFixed32 kActiveExtentStart ++ encodeFixed64 f.extentStart ++
  (if f.isSparse then encodeFixed32 kIsSparse else []) ++
  (f.linkfiles.flatMap fun n ↦
    encodeFixed32 kLinkedFilename ++ v.putLengthPrefixedSlice (nameBytes n))

/-- The `switch` in `ZoneFile::DecodeFrom`: the object and the device behind the field, and
the input behind it. -/
def decodeField (tag : UInt32) (input : List Byte) :
    ZoneFile × Zbd → Except Status ((ZoneFile × Zbd) × List Byte)
  | (f, d) =>
      if tag = kFileSize then
        match getFixed64 input with
        | none => .error (.corruption "Missing file size")
        | some (n, rest) => .ok (({ f with fileSize := n }, d), rest)
      else if tag = kWriteLifeTimeHint then
        match getFixed32 input with
        | none => .error (.corruption "Missing life time hint")
        | some (lt, rest) => .ok (({ f with lifetime := lt.toNat }, d), rest)
      else if tag = kExtent then
        -- whether there is a slice at all is not checked; without one it is empty
        match (v.getLengthPrefixedSlice input).getD ([], input) with
        | (slice, rest) =>
            match decodeExtentFrom slice with
            | .error e => .error e
            | .ok (start, length) =>
                match d.getIOZone start with
                | none => .error (.corruption "Invalid zone extent")
                | some z =>
                    .ok (({ f with extents := f.extents ++ [⟨start, length, z⟩] },
                      d.addUsed z length), rest)
      else if tag = kModificationTime then
        match getFixed64 input with
        | none => .error (.corruption "Missing creation time")
        | some (ct, rest) => .ok (({ f with mTime := ct }, d), rest)
      else if tag = kActiveExtentStart then
        match getFixed64 input with
        | none => .error (.corruption "Active extent start")
        | some (es, rest) => .ok (({ f with extentStart := es }, d), rest)
      else if tag = kIsSparse then .ok (({ f with isSparse := true }, d), input)
      else if tag = kLinkedFilename then
        match v.getLengthPrefixedSlice input with
        | none => .error (.corruption "LinkFilename missing")
        | some (slice, rest) =>
            if slice.length = 0 then .error (.corruption "Zero length Linkfilename")
            else .ok (({ f with linkfiles := f.linkfiles ++ [nameOfBytes slice] }, d), rest)
      else .error (.corruption "Unexpected tag")

/-- One turn of the loop in `ZoneFile::DecodeFrom`. -/
def nextField (input : List Byte) (s : ZoneFile × Zbd) :
    Except Status (Option ((ZoneFile × Zbd) × List Byte)) :=
  match getFixed32 input with
  | none => .ok none
  | some (tag, rest) => (decodeField v tag rest s).map some

/-- `ZoneFile::DecodeFrom`.  A failure leaves the object with what was read before it. -/
def decodeFrom (input : List Byte) (f : ZoneFile) (d : Zbd) :
    Except (Status × ZoneFile × Zbd) (ZoneFile × Zbd) :=
  match getFixed32 input with
  | none => .error (.corruption "File ID missing", f, d)
  | some (tag, input) =>
      if tag ≠ kFileID then .error (.corruption "File ID missing", f, d)
      else
        match getFixed64 input with
        | none => .error (.corruption "File ID missing", f, d)
        | some (id, input) =>
            (Stream.run (nextField v) input ({ f with fileId := id }, d)).map fun s ↦
              (s.1.metadataSynced, s.2)

/-! ## Fields -/

/-- A field with its tag. -/
inductive Field where
  | fileSize (n : Nat)
  | lifetime (n : Nat)
  | extent (start length : Nat)
  | mTime (n : Nat)
  | extentStart (n : Nat)
  | isSparse
  | linkfile (n : Name)

namespace Field

/-- What `ZoneFile::EncodeTo` writes for a field. -/
def put : Field → List Byte
  | fileSize n => encodeFixed32 kFileSize ++ encodeFixed64 n
  | lifetime n => encodeFixed32 kWriteLifeTimeHint ++ encodeFixed32 (UInt32.ofNat n)
  | extent start length =>
      encodeFixed32 kExtent ++ v.putLengthPrefixedSlice (encodeExtentTo start length)
  | mTime n => encodeFixed32 kModificationTime ++ encodeFixed64 n
  | extentStart n => encodeFixed32 kActiveExtentStart ++ encodeFixed64 n
  | isSparse => encodeFixed32 kIsSparse
  | linkfile n => encodeFixed32 kLinkedFilename ++ v.putLengthPrefixedSlice (nameBytes n)

/-- What a field does to the object that is decoded, and to the device. -/
def act : Field → ZoneFile × Zbd → Except Status (ZoneFile × Zbd)
  | fileSize n, (f, d) => .ok ({ f with fileSize := n }, d)
  | lifetime n, (f, d) => .ok ({ f with lifetime := n }, d)
  | extent start length, (f, d) =>
      match d.getIOZone start with
      | none => .error (.corruption "Invalid zone extent")
      | some z => .ok ({ f with extents := f.extents ++ [⟨start, length, z⟩] }, d.addUsed z length)
  | mTime n, (f, d) => .ok ({ f with mTime := n }, d)
  | extentStart n, (f, d) => .ok ({ f with extentStart := n }, d)
  | isSparse, (f, d) => .ok ({ f with isSparse := true }, d)
  | linkfile n, (f, d) =>
      if n = "" then .error (.corruption "Zero length Linkfilename")
      else .ok ({ f with linkfiles := f.linkfiles ++ [n] }, d)

/-- The values of a field have the types of the source. -/
def Fits : Field → Prop
  | fileSize n | mTime n | extentStart n => n < 2 ^ 64
  | lifetime n => n < 2 ^ 32
  | extent start length => start < 2 ^ 64 ∧ length < 2 ^ 64
  | isSparse => True
  | linkfile n => (∀ c ∈ n.toList, c.toNat < 256) ∧ (nameBytes n).length < 2 ^ 32

end Field

/-- The fields of a record behind its id, as they are written. -/
def fields (fr : FileRecord) : List Field :=
  .fileSize fr.fileSize :: .lifetime fr.lifetime ::
    (fr.extents.map (fun e ↦ .extent e.1 e.2) ++
      .mTime fr.mTime :: .extentStart fr.extentStart ::
        ((if fr.isSparse then [.isSparse] else []) ++ fr.linkfiles.map .linkfile))

section Decode

variable {v : Varint32} {f : ZoneFile} {d : Zbd} {s : ZoneFile × Zbd}

theorem decodeExtentFrom_encodeExtentTo {start length : Nat} (hs : start < 2 ^ 64)
    (hl : length < 2 ^ 64) :
    decodeExtentFrom (encodeExtentTo start length) = .ok (start, length) := by
  have h₁ := getFixed64_put hs (encodeFixed64 length)
  have h₂ := getFixed64_put hl []
  simp only [getFixed64, List.append_nil, List.length_append, length_encodeFixed64, Nat.reduceAdd,
    Nat.reduceLT, if_false, Option.some.injEq, Prod.mk.injEq] at h₁ h₂
  rw [decodeExtentFrom, if_neg (by simp [encodeExtentTo]), encodeExtentTo, h₁.1, h₁.2, h₂.1]

/-- A field is read as it was written. -/
theorem nextField_put {a : Field} (h : a.Fits) (rest : List Byte) (s : ZoneFile × Zbd) :
    nextField v (a.put v ++ rest) s = (a.act s).map fun s' ↦ some (s', rest) := by
  obtain ⟨f, d⟩ := s
  cases a with
  | fileSize n =>
      rw [Field.put, List.append_assoc, nextField, getFixed32_put]
      dsimp only
      rw [decodeField, if_pos rfl, getFixed64_put h]
      rfl
  | lifetime n =>
      have hn : (UInt32.ofNat n).toNat = n := UInt32.toNat_ofNat_of_lt' h
      rw [Field.put, List.append_assoc, nextField, getFixed32_put]
      dsimp only
      rw [decodeField, if_neg (by decide), if_pos rfl, getFixed32_put]
      dsimp only
      rw [hn]
      rfl
  | extent start length =>
      rw [Field.put, List.append_assoc, nextField, getFixed32_put]
      dsimp only
      rw [decodeField, if_neg (by decide), if_neg (by decide), if_pos rfl,
        Varint32.getLengthPrefixedSlice_put (by simp [encodeExtentTo]), Option.getD_some]
      dsimp only
      rw [decodeExtentFrom_encodeExtentTo h.1 h.2, Field.act]
      dsimp only
      cases d.getIOZone start <;> rfl
  | mTime n =>
      rw [Field.put, List.append_assoc, nextField, getFixed32_put]
      dsimp only
      rw [decodeField, if_neg (by decide), if_neg (by decide), if_neg (by decide), if_pos rfl,
        getFixed64_put h]
      rfl
  | extentStart n =>
      rw [Field.put, List.append_assoc, nextField, getFixed32_put]
      dsimp only
      rw [decodeField, if_neg (by decide), if_neg (by decide), if_neg (by decide),
        if_neg (by decide), if_pos rfl, getFixed64_put h]
      rfl
  | isSparse =>
      rw [Field.put, nextField, getFixed32_put]
      rfl
  | linkfile n =>
      rw [Field.put, List.append_assoc, nextField, getFixed32_put]
      dsimp only
      rw [decodeField, if_neg (by decide), if_neg (by decide), if_neg (by decide),
        if_neg (by decide), if_neg (by decide), if_neg (by decide), if_pos rfl,
        Varint32.getLengthPrefixedSlice_put h.2]
      have hnil : (nameBytes n).length = 0 ↔ n = "" := by
        rw [List.length_eq_zero_iff, nameBytes_eq_nil]
      dsimp only
      rw [nameOfBytes_nameBytes h.1, Field.act]
      by_cases hn : n = ""
      · rw [if_pos (hnil.mpr hn), if_pos hn]
        rfl
      · rw [if_neg (mt hnil.mp hn), if_neg hn]
        rfl

theorem length_of_decodeField {tag : UInt32} {input rest : List Byte} {s' : ZoneFile × Zbd}
    (h : decodeField v tag input s = .ok (s', rest)) : rest.length ≤ input.length := by
  obtain ⟨f, d⟩ := s
  have hslice : ((v.getLengthPrefixedSlice input).getD ([], input)).2.length ≤ input.length := by
    cases hp : v.getLengthPrefixedSlice input with
    | none => exact le_rfl
    | some p => exact (Varint32.length_of_getLengthPrefixedSlice hp).le
  unfold decodeField at h
  dsimp only at h
  repeat' split at h
  all_goals first
    | cases h; done
    | cases h; exact length_of_getFixed64 (by assumption)
    | cases h; exact (length_of_getFixed32 (by assumption)).le
    | cases h; exact hslice
    | cases h; exact (Varint32.length_of_getLengthPrefixedSlice (by assumption)).le
    | cases h; exact le_rfl

theorem shortens_nextField : Stream.Shortens (nextField v) := by
  intro input rest s s' h
  unfold nextField at h
  split at h
  · cases h
  · next tag rest' hget =>
      have hlt := length_of_getFixed32 hget
      cases hf : decodeField v tag rest' s with
      | error e => rw [hf] at h; cases h
      | ok p =>
          rw [hf] at h
          cases h
          exact (length_of_decodeField hf).trans_lt hlt

/-- The bytes of a file are its id and its fields. -/
theorem encodeTo_eq (f : ZoneFile) (k : Nat) :
    encodeTo v f k = encodeFixed32 kFileID ++ (encodeFixed64 f.fileId ++
      (fields (f.encodeTo k)).flatMap (Field.put v)) := by
  have hsparse : (if f.isSparse then [Field.isSparse] else []).flatMap (Field.put v) =
      if f.isSparse then encodeFixed32 kIsSparse else [] := by
    cases f.isSparse
    · rfl
    · exact List.append_nil _
  have hfields : (fields (f.encodeTo k)).flatMap (Field.put v) =
      Field.put v (.fileSize f.fileSize) ++ (Field.put v (.lifetime f.lifetime) ++
        (((f.extents.drop k).flatMap fun e ↦ Field.put v (.extent e.start e.length)) ++
          (Field.put v (.mTime f.mTime) ++ (Field.put v (.extentStart f.extentStart) ++
            ((if f.isSparse then encodeFixed32 kIsSparse else []) ++
              f.linkfiles.flatMap fun n ↦ Field.put v (.linkfile n)))))) := by
    simp only [fields, List.flatMap_cons, List.flatMap_append, List.flatMap_map, ← hsparse]
    simp only [ZoneFile.encodeTo, List.flatMap_map]
    rfl
  rw [hfields]
  simp only [encodeTo, Field.put, List.append_assoc]

/-- The fields of a file whose bytes are not too many can all be read back. -/
theorem fits_of_mem_fields (hf : f.Fits) {k : Nat} (hlen : (encodeTo v f k).length < 2 ^ 32)
    {a : Field} (ha : a ∈ fields (f.encodeTo k)) : a.Fits := by
  have hput : (a.put v).length < 2 ^ 32 := by
    refine lt_of_le_of_lt ?_ hlen
    have hsub : (a.put v).length ≤ ((fields (f.encodeTo k)).flatMap (Field.put v)).length :=
      Stream.length_put_le (Field.put v) ha
    rw [encodeTo_eq, List.length_append, List.length_append]
    omega
  simp only [fields, List.mem_cons, List.mem_append, List.mem_map, List.mem_ite_nil_right,
    List.not_mem_nil, or_false] at ha
  rcases ha with rfl | rfl | ⟨_, he, rfl⟩ | rfl | rfl | ⟨-, rfl⟩ | ⟨n, hn, rfl⟩
  · exact hf.fileSize
  · exact hf.lifetime
  · obtain ⟨e, he', rfl⟩ := List.mem_map.mp he
    exact hf.extents e (List.mem_of_mem_drop he')
  · exact hf.mTime
  · exact hf.extentStart
  · trivial
  · refine ⟨hf.linkfiles n hn, lt_of_le_of_lt ?_ hput⟩
    rw [Field.put, List.length_append]
    exact (v.length_le_putLengthPrefixedSlice _).trans (Nat.le_add_left ..)

theorem decodeExtents_map {es : List ZoneExtent} (h : ∀ e ∈ es, d.getIOZone e.start = some e.zone) :
    d.decodeExtents (es.map fun e ↦ (e.start, e.length)) = .ok es := by
  induction es with
  | nil => rfl
  | cons e es ih =>
      rw [List.map_cons, Zbd.decodeExtents, h e (List.mem_cons_self ..),
        ih fun e' he' ↦ h e' (List.mem_cons_of_mem _ he')]

theorem decodeExtents_congr {d' : Zbd} (h : d'.getIOZone = d.getIOZone) (es : List (Nat × Nat)) :
    d'.decodeExtents es = d.decodeExtents es := by
  induction es with
  | nil => rfl
  | cons e es ih => rw [Zbd.decodeExtents, Zbd.decodeExtents, h, ih]

theorem actAll_extents {es : List (Nat × Nat)} {es' : List ZoneExtent}
    (h : d.decodeExtents es = .ok es') :
    Stream.actAll Field.act (es.map fun e ↦ .extent e.1 e.2) (f, d) =
      .ok ({ f with extents := f.extents ++ es' }, d.countExtents es') := by
  induction es generalizing f d es' with
  | nil =>
      cases h
      rw [List.append_nil]
      rfl
  | cons e es ih =>
      rw [Zbd.decodeExtents] at h
      split at h
      · cases h
      · next z hz =>
          split at h
          · cases h
          · next es'' hes =>
              cases h
              have hes' : (d.addUsed z e.2).decodeExtents es = .ok es'' := by
                rw [decodeExtents_congr (funext (d.getIOZone_addUsed z e.2)), hes]
              have hact : (Field.extent e.1 e.2).act (f, d) =
                  .ok ({ f with extents := f.extents ++ [⟨e.1, e.2, z⟩] }, d.addUsed z e.2) := by
                rw [Field.act, hz]
              rw [List.map_cons, Stream.actAll_cons_ok hact, ih hes', List.append_assoc]
              rfl

theorem actAll_linkfiles {ns : List Name} (h : "" ∉ ns) :
    Stream.actAll Field.act (ns.map .linkfile) (f, d) =
      .ok ({ f with linkfiles := f.linkfiles ++ ns }, d) := by
  induction ns generalizing f with
  | nil =>
      rw [List.append_nil]
      rfl
  | cons n ns ih =>
      obtain ⟨hn, hns⟩ := not_or.mp (mt List.mem_cons.mpr h)
      have hact : (Field.linkfile n).act (f, d) =
          .ok ({ f with linkfiles := f.linkfiles ++ [n] }, d) := if_neg (Ne.symm hn)
      rw [List.map_cons, Stream.actAll_cons_ok hact, ih hns, List.append_assoc]
      rfl

/-- The fields of a record that can be decoded build up the object. -/
theorem actAll_fields {fr : FileRecord} {g : ZoneFile} {d' : Zbd}
    (h : ZoneFile.decodeFrom fr d = .ok (g, d')) :
    ∃ f', Stream.actAll Field.act (fields fr) ({ fileId := fr.fileId }, d) = .ok (f', d') ∧
      f'.metadataSynced = g := by
  unfold ZoneFile.decodeFrom at h
  split at h
  · cases h
  · next es hes =>
      split at h
      · cases h
      · next hn =>
          cases h
          have hsparse : ∀ f : ZoneFile, f.isSparse = false →
              Stream.actAll Field.act (if fr.isSparse then [.isSparse] else [])
              (f, d.countExtents es) =
                .ok ({ f with isSparse := fr.isSparse }, d.countExtents es) := by
            intro f hf
            cases fr.isSparse with
            | false =>
                show Except.ok (f, d.countExtents es) = _
                rw [← hf]
            | true => rfl
          refine ⟨⟨fr.fileId, fr.fileSize, fr.lifetime, es, fr.linkfiles, fr.mTime,
            fr.extentStart, 0, fr.isSparse, false, 0, none, false⟩, ?_, rfl⟩
          rw [fields, Stream.actAll_cons_ok rfl, Stream.actAll_cons_ok rfl,
            Stream.actAll_append (actAll_extents hes), Stream.actAll_cons_ok rfl,
            Stream.actAll_cons_ok rfl, Stream.actAll_append (hsparse _ rfl), actAll_linkfiles hn]
          rfl

/-- What is decoded from the bytes of a file is what is decoded from its record. -/
theorem decodeFrom_encodeTo (hf : f.Fits) {k : Nat} (hlen : (encodeTo v f k).length < 2 ^ 32)
    {g : ZoneFile} {d' : Zbd} (h : ZoneFile.decodeFrom (f.encodeTo k) d = .ok (g, d')) :
    decodeFrom v (encodeTo v f k) { fileId := 0 } d = .ok (g, d') := by
  have hput : ∀ a ∈ fields (f.encodeTo k), ∀ rest s,
      nextField v (a.put v ++ rest) s = (a.act s).map fun s' ↦ some (s', rest) := fun a ha rest s ↦
    nextField_put (fits_of_mem_fields hf hlen ha) rest s
  obtain ⟨f', hact, rfl⟩ := actAll_fields h
  rw [decodeFrom, encodeTo_eq, getFixed32_put]
  dsimp only
  rw [if_neg (not_not_intro rfl), getFixed64_put hf.fileId]
  dsimp only
  rw [shortens_nextField.run_flatMap hput fun _ ↦ rfl]
  exact congrArg _ hact

/-- A file whose extents are where the zone table has them is decoded as it is. -/
theorem decodeFrom_record (hn : "" ∉ f.linkfiles)
    (hz : ∀ e ∈ f.extents, d.getIOZone e.start = some e.zone)
    (k : Nat) : ZoneFile.decodeFrom (f.encodeTo k) d =
      .ok (f.restored k, d.countExtents (f.extents.drop k)) := by
  rw [ZoneFile.decodeFrom, ZoneFile.encodeTo,
    decodeExtents_map fun e he ↦ hz e (List.mem_of_mem_drop he)]
  exact if_neg hn

end Decode

end Codec

end ZenFs
