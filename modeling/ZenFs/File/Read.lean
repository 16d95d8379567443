import ZenFs.File.Basic
import Mathlib.Data.List.Forall2
import Mathlib.Order.Nat

/-!
# Reading a file

`PositionedRead` walks the extents of a file with its own arithmetic of device
offsets.  The first result is that it returns the bytes of the extents, one
after the other; the second that it cannot tell apart two files whose extents
hold the same bytes.
-/

namespace ZenFs

namespace Zbd

/-- `ZonedBlockDevice::Read` on a backend that delivers what it is asked for.
The length is passed as an `int`, and nothing is read for a length of zero. -/
def read (d : Zbd) (offset n : Nat) : Option (List Byte) :=
  if 0 < n % 2 ^ 32 ∧ n % 2 ^ 32 < 2 ^ 31 then some (d.mem.read offset (n % 2 ^ 32)) else none

/-- The bytes of a list of extents, in order. -/
def contents (d : Zbd) (es : List ZoneExtent) : List Byte :=
  es.flatMap fun e ↦ d.mem.read e.start e.length

@[simp] theorem contents_nil (d : Zbd) : d.contents [] = [] := rfl

@[simp] theorem contents_cons (d : Zbd) (e : ZoneExtent) (es : List ZoneExtent) :
    d.contents (e :: es) = d.mem.read e.start e.length ++ d.contents es := rfl

@[simp] theorem contents_append (d : Zbd) (es es' : List ZoneExtent) :
    d.contents (es ++ es') = d.contents es ++ d.contents es' := by
  simp [contents]

end Zbd

/-- The number of bytes in a list of extents. -/
def totalLength (es : List ZoneExtent) : Nat := (es.map ZoneExtent.length).sum

@[simp] theorem totalLength_nil : totalLength [] = 0 := rfl

@[simp] theorem totalLength_cons (e : ZoneExtent) (es : List ZoneExtent) :
    totalLength (e :: es) = e.length + totalLength es := by
  simp [totalLength]

@[simp] theorem totalLength_append (es es' : List ZoneExtent) :
    totalLength (es ++ es') = totalLength es + totalLength es' := by
  simp [totalLength]

@[simp] theorem Zbd.length_contents (d : Zbd) (es : List ZoneExtent) :
    (d.contents es).length = totalLength es := by
  induction es with
  | nil => rfl
  | cons e es ih => simp [ih]

/-- `ZoneFile::GetExtent`: the extent that holds a file offset, and the device
offset of that byte. -/
def getExtent : List ZoneExtent → Nat → Option (ZoneExtent × Nat)
  | [], _ => none
  | e :: es, file_offset =>
      if file_offset < e.length then some (e, e.start + file_offset)
      else getExtent es (file_offset - e.length)

/-- The loop of `ZoneFile::PositionedRead`, with what has been read so far.
`pread_sz` bytes are asked for, rounded up to whole blocks for a direct read. -/
def readLoop (d : Zbd) (es : List ZoneExtent) (offset r_sz : Nat) (direct : Bool) :
    Nat → Nat → Nat → List Byte → List Byte × Status
  | 0, _, _, acc => (acc, .ok)
  | fuel + 1, r_off, extent_end, acc =>
      if acc.length = r_sz then (acc, .ok)
      else
        let pread_sz :=
          if extent_end < r_sz - acc.length + r_off then extent_end - r_off else r_sz - acc.length
        let bytes_to_align :=
          if direct && pread_sz % d.blockSize != 0 then d.blockSize - pread_sz % d.blockSize else 0
        match d.read r_off (pread_sz + bytes_to_align) with
        | none => ([], .ioError "pread error\n")
        | some bytes =>
            let acc' := acc ++ bytes.take pread_sz
            let r_off' := r_off + (bytes.take pread_sz).length
            if acc'.length ≠ r_sz ∧ r_off' = extent_end then
              match getExtent es (offset + acc'.length) with
              | none => (acc', .ok)
              | some (e, _) =>
                  readLoop d es offset r_sz direct fuel e.start (e.start + e.length) acc'
            else readLoop d es offset r_sz direct fuel r_off' extent_end acc'

/-- `ZoneFile::PositionedRead`. -/
def positionedRead (d : Zbd) (f : ZoneFile) (offset n : Nat) (direct : Bool) : List Byte × Status :=
  if f.fileSize ≤ offset then ([], .ok)
  else match getExtent f.extents offset with
    | none => ([], .ok)
    | some (e, r_off) =>
        let r_sz := if f.fileSize < offset + n then f.fileSize - offset else n
        readLoop d f.extents offset r_sz direct (r_sz + 1) r_off (e.start + e.length) []

/-! ## The bytes of a read -/

section Get

variable {es pre post : List ZoneExtent} {e : ZoneExtent} {a k off : Nat}

/-- Where `GetExtent` finds an offset. -/
theorem getExtent_eq_some (h : getExtent es off = some (e, a)) :
    ∃ pre post k, es = pre ++ e :: post ∧ off = totalLength pre + k ∧ k < e.length ∧
      a = e.start + k := by
  induction es generalizing off with
  | nil => cases h
  | cons e' es ih =>
      rw [getExtent] at h
      split at h
      next hlt =>
        obtain ⟨rfl, rfl⟩ := Prod.mk.inj (Option.some.inj h)
        exact ⟨[], es, off, rfl, by simp, hlt, rfl⟩
      next hge =>
        obtain ⟨pre, post, k, rfl, hoff, hk, ha⟩ := ih h
        refine ⟨e' :: pre, post, k, rfl, ?_, hk, ha⟩
        simp only [totalLength_cons]
        omega

theorem getExtent_append (pre : List ZoneExtent) (hk : totalLength pre ≤ off) :
    getExtent (pre ++ es) off = getExtent es (off - totalLength pre) := by
  induction pre generalizing off with
  | nil => simp
  | cons e pre ih =>
      simp only [totalLength_cons] at hk
      rw [List.cons_append, getExtent, if_neg (by omega), ih (by omega), totalLength_cons,
        Nat.sub_sub]

/-- The first byte of a list of extents is the first byte of an extent. -/
theorem getExtent_zero (h : getExtent es 0 = some (e, a)) : a = e.start := by
  obtain ⟨pre, post, k, rfl, h0, -, rfl⟩ := getExtent_eq_some h
  omega

theorem getExtent_eq_none : getExtent es off = none ↔ totalLength es ≤ off := by
  induction es generalizing off with
  | nil => simp [getExtent]
  | cons e es ih =>
      rw [getExtent, totalLength_cons]
      split
      next hlt => simp only [reduceCtorEq, false_iff]; omega
      next hge => rw [ih]; omega

/-- The bytes behind an offset inside an extent. -/
theorem Zbd.drop_contents (d : Zbd) (hk : k ≤ e.length) :
    (d.contents (pre ++ e :: post)).drop (totalLength pre + k) =
      d.mem.read (e.start + k) (e.length - k) ++ d.contents post := by
  rw [contents_append, contents_cons, ← d.length_contents pre, ← List.drop_drop,
    List.drop_append_of_le_length le_rfl, List.drop_length, List.nil_append,
    List.drop_append_of_le_length (by simpa using hk), Mem.drop_read _ _ _ _ hk]

theorem Zbd.drop_contents_of_le (d : Zbd) (h : totalLength es ≤ off) :
    (d.contents es).drop off = [] :=
  List.drop_of_length_le (by simpa using h)

end Get

theorem Zbd.read_eq_some (d : Zbd) {offset n : Nat} (h0 : 0 < n) (hn : n < 2 ^ 31) :
    d.read offset n = some (d.mem.read offset n) := by
  have hmod : n % 2 ^ 32 = n := Nat.mod_eq_of_lt (hn.trans (by decide))
  rw [Zbd.read, hmod, if_pos ⟨h0, hn⟩]

/-- The loop reads on from where it stands. -/
theorem readLoop_eq (d : Zbd) (es : List ZoneExtent) (offset : Nat) {r_sz : Nat}
    (hsz : r_sz < 2 ^ 31) :
    ∀ (fuel : Nat) (acc : List Byte) (pre post : List ZoneExtent) (e : ZoneExtent) (k : Nat),
      r_sz - acc.length < fuel → acc.length < r_sz → es = pre ++ e :: post →
      offset + acc.length = totalLength pre + k → k < e.length →
      readLoop d es offset r_sz false fuel (e.start + k) (e.start + e.length) acc =
        (acc ++ ((d.contents es).drop (offset + acc.length)).take (r_sz - acc.length), .ok) := by
  intro fuel
  induction fuel with
  | zero => exact fun _ _ _ _ _ h ↦ absurd h (Nat.not_lt_zero _)
  | succ fuel ih =>
      intro acc pre post e k hfuel hlt hes hoff hk
      have hdone : ∀ {fuel r_off extent_end} {acc' : List Byte}, 0 < fuel → acc'.length = r_sz →
          readLoop d es offset r_sz false fuel r_off extent_end acc' = (acc', .ok) := by
        rintro (_ | fuel) r_off extent_end acc' h0 hacc
        · exact absurd h0 (Nat.lt_irrefl 0)
        · rw [readLoop, if_pos hacc]
      rw [readLoop, if_neg hlt.ne]
      simp only [Bool.false_and, Bool.false_eq_true, if_false, Nat.add_zero]
      have hdrop : (d.contents es).drop (offset + acc.length) =
          d.mem.read (e.start + k) (e.length - k) ++ d.contents post := by
        rw [hes, hoff, d.drop_contents hk.le]
      rw [hdrop]
      rcases Nat.lt_or_ge (e.length - k) (r_sz - acc.length) with hshort | hlong
      · -- the read goes on behind this extent
        have hnext : offset + (acc.length + (e.length - k)) = totalLength (pre ++ [e]) := by
          simp only [totalLength_append, totalLength_cons, totalLength_nil]
          omega
        have hget : getExtent es (offset + (acc.length + (e.length - k))) = getExtent post 0 := by
          rw [hes, hnext, show pre ++ e :: post = (pre ++ [e]) ++ post by simp,
            getExtent_append _ le_rfl, Nat.sub_self]
        rw [if_pos (by omega), show e.start + e.length - (e.start + k) = e.length - k by omega,
          d.read_eq_some (by omega) (by omega)]
        simp only [Mem.take_read _ _ _ _ le_rfl, List.length_append, Mem.length_read, hget]
        rw [if_pos ⟨by omega, by omega⟩, List.take_append, Mem.length_read,
          List.take_of_length_le (by simpa using hshort.le), ← List.append_assoc]
        cases hpost : getExtent post 0 with
        | none =>
            have hnil : d.contents post = [] := by
              have hle := getExtent_eq_none.mp hpost
              exact List.length_eq_zero_iff.mp (by rw [d.length_contents]; omega)
            simp [hnil]
        | some p =>
            obtain ⟨e', a⟩ := p
            have ha := getExtent_zero hpost
            obtain ⟨pre', post', k', rfl, h0, hk', rfl⟩ := getExtent_eq_some hpost
            obtain rfl : k' = 0 := by omega
            have hacc : (acc ++ d.mem.read (e.start + k) (e.length - k)).length =
                acc.length + (e.length - k) := by simp
            have hpre : totalLength pre' = 0 := by omega
            have hrec := ih (acc ++ d.mem.read (e.start + k) (e.length - k))
              (pre ++ [e] ++ pre') post'
              e' 0 (by omega) (by omega) (by rw [hes]; simp) (by rw [hacc, hnext]; simp [hpre]) hk'
            have hrest : (d.contents es).drop (offset + (acc.length + (e.length - k))) =
                d.contents (pre' ++ e' :: post') := by
              rw [← Nat.add_assoc, ← List.drop_drop, hdrop,
                List.drop_append_of_le_length (by simp), List.drop_of_length_le (by simp),
                List.nil_append]
            rw [Nat.add_zero, hacc, hrest, Nat.sub_add_eq] at hrec
            exact hrec
      · -- the read ends in this extent
        rw [if_neg (by omega), d.read_eq_some (by omega) (by omega)]
        simp only [Mem.take_read _ _ _ _ le_rfl, List.length_append, Mem.length_read]
        rw [if_neg (by omega), hdone (by omega) (by simp; omega),
          List.take_append_of_le_length (by simpa using hlong), Mem.take_read _ _ _ _ hlong]

/-- `PositionedRead` returns the bytes of the extents from the offset on. -/
theorem positionedRead_eq (d : Zbd) (f : ZoneFile) {offset n : Nat} (hn : n < 2 ^ 31) :
    positionedRead d f offset n false =
      (((d.contents f.extents).drop offset).take (min n (f.fileSize - offset)), .ok) := by
  rw [positionedRead]
  split
  next hle => rw [Nat.sub_eq_zero_of_le hle, Nat.min_zero, List.take_zero]
  next hlt =>
    cases hget : getExtent f.extents offset with
    | none =>
        rw [d.drop_contents_of_le (getExtent_eq_none.mp hget), List.take_nil]
    | some p =>
        obtain ⟨e, a⟩ := p
        obtain ⟨pre, post, k, hes, hoff, hk, rfl⟩ := getExtent_eq_some hget
        have hsz : (if f.fileSize < offset + n then f.fileSize - offset else n) =
            min n (f.fileSize - offset) := by
          split <;> omega
        simp only [hsz]
        rcases Nat.eq_zero_or_pos (min n (f.fileSize - offset)) with h0 | hpos
        · rw [h0, List.take_zero]
          rfl
        · have hsz' : min n (f.fileSize - offset) < 2 ^ 31 := by omega
          have := readLoop_eq d f.extents offset hsz' (min n (f.fileSize - offset) + 1)
            [] pre post e k (by simp) hpos hes (by simpa using hoff) hk
          simpa using this

/-! ## Files that read alike -/

/-- Two extents, perhaps on different devices, hold the same bytes. -/
def SameBytes (d d' : Zbd) (e e' : ZoneExtent) : Prop :=
  e.length = e'.length ∧ d.mem.read e.start e.length = d'.mem.read e'.start e'.length

section Congr

variable {d d' : Zbd} {e e' : ZoneExtent} {es es' : List ZoneExtent}

/-- Parts of such extents hold the same bytes too. -/
theorem SameBytes.read_eq (h : SameBytes d d' e e') {k j : Nat} (hk : k + j ≤ e.length) :
    d.mem.read (e.start + k) j = d'.mem.read (e'.start + k) j := by
  obtain ⟨hlen, hread⟩ := h
  have hk' : k + j ≤ e'.length := hlen ▸ hk
  have h' : ((d.mem.read e.start e.length).drop k).take j =
      ((d'.mem.read e'.start e'.length).drop k).take j := by rw [hread]
  rwa [Mem.drop_read _ _ _ _ (by omega), Mem.drop_read _ _ _ _ (by omega),
    Mem.take_read _ _ _ _ (by omega), Mem.take_read _ _ _ _ (by omega)] at h'

/-- `GetExtent` finds an offset in the same place of both. -/
theorem getExtent_congr (h : List.Forall₂ (SameBytes d d') es es') (off : Nat) :
    (getExtent es off = none ∧ getExtent es' off = none) ∨
    ∃ e e' k, getExtent es off = some (e, e.start + k) ∧
    getExtent es' off = some (e', e'.start + k) ∧
      SameBytes d d' e e' ∧ k < e.length := by
  induction h generalizing off with
  | nil => exact .inl ⟨rfl, rfl⟩
  | @cons e e' es es' he _ ih =>
      rw [getExtent, getExtent, ← he.1]
      split
      next hlt => exact .inr ⟨e, e', off, rfl, rfl, he, hlt⟩
      next => exact ih (off - e.length)

/-- The bytes a read delivers from inside an extent. -/
theorem SameBytes.take_read (h : SameBytes d d' e e') {k p : Nat} (hp : p ≤ e.length - k)
    (hk : k ≤ e.length) (n : Nat) :
    (d.read (e.start + k) n).map (List.take p) = (d'.read (e'.start + k) n).map (List.take p) := by
  unfold Zbd.read
  split
  · simp only [Option.map_some, Option.some.injEq]
    rcases Nat.le_total p (n % 2 ^ 32) with hle | hle
    · rw [Mem.take_read _ _ _ _ hle, Mem.take_read _ _ _ _ hle]
      exact h.read_eq (by omega)
    · rw [List.take_of_length_le (by simpa using hle), List.take_of_length_le (by simpa using hle)]
      exact h.read_eq (by omega)
  · rfl

theorem readLoop_congr (h : List.Forall₂ (SameBytes d d') es es') (hbs : d.blockSize = d'.blockSize)
    (offset r_sz : Nat) (direct : Bool) (fuel : Nat) :
    ∀ (acc : List Byte) (e e' : ZoneExtent) (k : Nat), SameBytes d d' e e' → k ≤ e.length →
      readLoop d es offset r_sz direct fuel (e.start + k) (e.start + e.length) acc =
        readLoop d' es' offset r_sz direct fuel (e'.start + k) (e'.start + e'.length) acc := by
  induction fuel with
  | zero => exact fun _ _ _ _ _ _ ↦ rfl
  | succ fuel ih =>
      intro acc e e' k he hk
      rw [readLoop, readLoop, ← hbs, ← he.1]
      split
      · rfl
      -- both ask for the same number of bytes, and get the same ones
      have hif : ∀ a : Nat, (if a + e.length < r_sz - acc.length + (a + k) then
          a + e.length - (a + k) else r_sz - acc.length) = min (r_sz - acc.length)
            (e.length - k) := by
        intro a
        split <;> omega
      simp only [hif]
      generalize hp : min (r_sz - acc.length) (e.length - k) = p
      generalize (if (direct && p % d.blockSize != 0) = true then d.blockSize - p %
        d.blockSize else 0) = align
      have hbytes := he.take_read (k := k) (p := p) (by omega) hk (p + align)
      cases hr : d.read (e.start + k) (p + align) with
      | none =>
          rw [hr] at hbytes
          rw [Option.map_eq_none_iff.mp hbytes.symm]
      | some bytes =>
          rw [hr] at hbytes
          obtain ⟨bytes', hr', htake⟩ := Option.map_eq_some_iff.mp hbytes.symm
          rw [hr']
          simp only [htake]
          have hlen : (bytes.take p).length ≤ e.length - k := by
            rw [List.length_take]
            omega
          generalize bytes.take p = got at hlen
          simp only [Nat.add_assoc, Nat.add_left_cancel_iff]
          split
          · rcases getExtent_congr h (offset + (acc ++ got).length) with
              ⟨hn, hn'⟩ | ⟨e₁, e₁', k₁, hs, hs', he₁, -⟩
            · rw [hn, hn']
            · rw [hs, hs']
              exact ih (acc ++ got) e₁ e₁' 0 he₁ (Nat.zero_le _)
          · have hrec := ih (acc ++ got) e e' (k + got.length) he (by omega)
            rwa [← he.1] at hrec

/-- `PositionedRead` cannot tell apart files of the same size whose extents hold
the same bytes. -/
theorem positionedRead_congr {f f' : ZoneFile} (hbs : d.blockSize = d'.blockSize)
    (hsz : f.fileSize = f'.fileSize) (h : List.Forall₂ (SameBytes d d') f.extents f'.extents)
    (offset n : Nat) (direct : Bool) :
    positionedRead d f offset n direct = positionedRead d' f' offset n direct := by
  rw [positionedRead, positionedRead, ← hsz]
  split
  · rfl
  rcases getExtent_congr h offset with ⟨hn, hn'⟩ | ⟨e, e', k, hs, hs', he, hk⟩
  · rw [hn, hn']
  · rw [hs, hs']
    exact readLoop_congr h hbs offset _ direct _ [] e e' k he hk.le

end Congr

end ZenFs
