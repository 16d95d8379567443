import ZenFs.File.Read

/-!
# Direct reads

A direct read is served by the device only if it begins and ends at a block boundary.
`PositionedRead` rounds every piece of an extent up to whole blocks for it and takes
off again what is too much, but it neither looks at where the piece begins nor at how
much room is left behind it in `scratch`.

The loop is followed with the memory that it writes to; then it is seen to walk along
the pieces of the extents that are asked for, and both kinds of reads are compared
piece by piece.
-/

namespace ZenFs

/-- The buffer of the caller, and the end of what has been written to it. -/
structure Scratch where
  cells : Mem Byte
  top : Nat

namespace Scratch

/-- The bytes of a read arrive at `pos`. -/
def put (s : Scratch) (pos : Nat) (bytes : List Byte) : Scratch :=
  { cells := s.cells.write pos bytes, top := max s.top (pos + bytes.length) }

end Scratch

/-- `ZonedBlockDevice::Read` on a device that serves direct reads of whole blocks only. -/
def Zbd.serve (d : Zbd) (offset n : Nat) (direct : Bool) : Option (List Byte) :=
  if direct && (offset % d.blockSize != 0 || n % 2 ^ 32 % d.blockSize != 0) then none
    else d.read offset n

namespace DirectRead

/-- `bytes_to_align`. -/
def bytesToAlign (bs : Nat) (direct : Bool) (pread_sz : Nat) : Nat :=
  if direct && pread_sz % bs != 0 then bs - pread_sz % bs else 0

/-- `pread_sz` for the bytes that are left: they are limited to the end of the extent by a
sum of 64 bits. -/
def preadSz (r_off extent_end left : Nat) : Nat :=
  if extent_end < (left + r_off) % 2 ^ 64 then extent_end - r_off else left

/-- The loop of `ZoneFile::PositionedRead` behind `read` bytes. -/
def readLoop (d : Zbd) (es : List ZoneExtent) (offset r_sz : Nat) (direct : Bool) :
    Nat → Nat → Nat → Nat → Scratch → Scratch × Nat × Status
  | 0, _, _, read, s => (s, read, .ok)
  | fuel + 1, r_off, extent_end, read, s =>
      if read = r_sz then (s, read, .ok)
      else
        let pread_sz := preadSz r_off extent_end (r_sz - read)
        match d.serve r_off (pread_sz + bytesToAlign d.blockSize direct pread_sz) direct with
        | none => (s, 0, .ioError "pread error\n")
        | some bytes =>
            let s' := s.put read bytes
            let got := if bytes.length ≤ pread_sz then bytes.length else pread_sz
            if read + got ≠ r_sz ∧ r_off + got = extent_end then
              match getExtent es (offset + (read + got)) with
              | none => (s', read + got, .ok)
              | some (e, _) =>
                  readLoop d es offset r_sz direct fuel e.start (e.start + e.length) (read + got) s'
            else readLoop d es offset r_sz direct fuel (r_off + got) extent_end (read + got) s'

/-- `r_sz`: the read is limited to the end of the file, by a sum of 64 bits. -/
def readSize (f : ZoneFile) (offset n : Nat) : Nat :=
  if f.fileSize < (offset + n) % 2 ^ 64 then f.fileSize - offset else n

/-- `ZoneFile::PositionedRead` into `scratch`: the bytes of the result, the status, and
the end of what has been written. -/
def positionedRead (d : Zbd) (f : ZoneFile) (offset n : Nat) (direct : Bool) (scratch : Mem Byte) :
    List Byte × Status × Nat :=
  if f.fileSize ≤ offset then ([], .ok, 0)
  else
    match getExtent f.extents offset with
    | none => ([], .ok, 0)
    | some (e, r_off) =>
        let r_sz := readSize f offset n
        match readLoop d f.extents offset r_sz direct (r_sz + 1) r_off (e.start + e.length) 0
          ⟨scratch, 0⟩ with
        | (s, read, status) => (s.cells.read 0 read, status, s.top)

/-- The direct read gives what the plain one gives, and stays inside of the first `n`
bytes of `scratch`. -/
def Agrees (d : Zbd) (f : ZoneFile) (offset n : Nat) (scratch : Mem Byte) : Prop :=
  let plain := positionedRead d f offset n false scratch
  let direct := positionedRead d f offset n true scratch
  direct.1 = plain.1 ∧ direct.2.1 = plain.2.1 ∧ direct.2.2 ≤ n

instance (d : Zbd) (f : ZoneFile) (offset n : Nat) (scratch : Mem Byte) :
    Decidable (Agrees d f offset n scratch) := inferInstanceAs (Decidable (_ ∧ _ ∧ _))

/-! ## The pieces of a read -/

/-- A part of an extent: where it begins on the device, its length, and how many bytes are
asked for in order to read it. -/
structure Piece where
  start : Nat
  length : Nat
  asked : Nat
deriving DecidableEq, Repr

/-- The part of `want` bytes from the offset `k` of an extent on. -/
def pieceOf (e : ZoneExtent) (k want : Nat) : Piece :=
  ⟨e.start + k, min want (e.length - k), preadSz (e.start + k) (e.start + e.length) want⟩

/-- The first `want` bytes of a list of extents. -/
def wholePieces : List ZoneExtent → Nat → List Piece
  | [], _ => []
  | e :: es, want =>
      if want = 0 then [] else pieceOf e 0 want :: wholePieces es (want - min want e.length)

/-- The pieces of `want` bytes from an offset on. -/
def pieces : List ZoneExtent → Nat → Nat → List Piece
  | [], _, _ => []
  | e :: es, offset, want =>
      if offset < e.length then
        if want = 0 then []
        else pieceOf e offset want :: wholePieces es (want - min want (e.length - offset))
      else pieces es (offset - e.length) want

/-- The pieces of a read. -/
def readPieces (f : ZoneFile) (offset n : Nat) : List Piece :=
  if f.fileSize ≤ offset then [] else pieces f.extents offset (readSize f offset n)

/-- What is asked for `n` bytes. -/
def ask (bs : Nat) (direct : Bool) (n : Nat) : Nat := n + bytesToAlign bs direct n

/-- A walk along the pieces; a piece that is not served as a whole is the last one. -/
def walk (d : Zbd) (direct : Bool) : List Piece → Nat → Scratch → Scratch × Nat × Status
  | [], read, s => (s, read, .ok)
  | p :: ps, read, s =>
      match d.serve p.start (ask d.blockSize direct p.asked) direct with
      | none => (s, 0, .ioError "pread error\n")
      | some bytes =>
          if min bytes.length p.asked = p.length then walk d direct ps (read + p.length)
            (s.put read bytes)
          else (s.put read bytes, 0, .ioError "pread error\n")

/-- What is asked for a piece, as an `int`. -/
def got (bs : Nat) (direct : Bool) (p : Piece) : Nat := ask bs direct p.asked % 2 ^ 32

/-- The size is one that the device serves, and for a direct read it comes in blocks, as
does the start. -/
def Served (bs : Nat) (direct : Bool) (p : Piece) : Prop :=
  (0 < got bs direct p ∧ got bs direct p < 2 ^ 31) ∧
    (direct = true → bs ∣ p.start ∧ bs ∣ got bs direct p)

/-- The size is that of the piece, up to what has been added for whole blocks. -/
def Whole (bs : Nat) (direct : Bool) (p : Piece) : Prop :=
  Served bs direct p ∧ min (got bs direct p) p.asked = p.length

instance (bs : Nat) (direct : Bool) (p : Piece) : Decidable (Served bs direct p) :=
  inferInstanceAs (Decidable (_ ∧ _))

instance (bs : Nat) (direct : Bool) (p : Piece) : Decidable (Whole bs direct p) :=
  inferInstanceAs (Decidable (_ ∧ _))

/-- The pieces, in whole blocks, end inside of the first `n` bytes of `scratch`, up to one
that is not whole. -/
def Fits (bs n : Nat) : Nat → List Piece → Prop
  | _, [] => True
  | pos, p :: ps =>
      Served bs true p → pos + got bs true p ≤ n ∧ (Whole bs true p → Fits bs n (pos + p.length) ps)

instance decidableFits (bs n : Nat) : ∀ pos ps, Decidable (Fits bs n pos ps)
  | _, [] => inferInstanceAs (Decidable True)
  | pos, p :: ps =>
      have := decidableFits bs n (pos + p.length) ps
      inferInstanceAs (Decidable (_ → _ ∧ (_ → _)))

/-- When a direct read of these pieces does what a plain one does: they fit, and either all
of them are whole, or there is one for each kind of read that is not. -/
def Servable (bs n : Nat) (ps : List Piece) : Prop :=
  Fits bs n 0 ps ∧
    ((∀ p ∈ ps, Whole bs false p ∧ Whole bs true p) ∨
      ((∃ p ∈ ps, ¬Whole bs false p) ∧ ∃ p ∈ ps, ¬Whole bs true p))

instance (bs n : Nat) (ps : List Piece) : Decidable (Servable bs n ps) := by
  unfold Servable
  infer_instance

/-! ## What is asked for -/

section Ask

variable {bs n m : Nat}

@[simp] theorem ask_false (bs n : Nat) : ask bs false n = n := rfl

theorem ask_true (bs n : Nat) : ask bs true n = if n % bs = 0 then n else n + (bs - n % bs) := by
  by_cases h : n % bs = 0 <;> simp [ask, bytesToAlign, h]

/-- Whole blocks can be taken off. -/
theorem ask_sub (hm : bs ∣ m) (hle : m ≤ n) : ask bs true (n - m) = ask bs true n - m := by
  obtain ⟨k, rfl⟩ := Nat.exists_eq_add_of_le hle
  have hmod : (m + k) % bs = k % bs := by
    rw [Nat.add_mod, Nat.mod_eq_zero_of_dvd hm, Nat.zero_add, Nat.mod_mod]
  rw [Nat.add_sub_cancel_left, ask_true, ask_true, hmod]
  split <;> omega

end Ask

/-! ## What is served -/

section Serve

variable {d : Zbd} {a n : Nat} {direct : Bool} {bytes : List Byte}

/-- What a read that is served looks like. -/
theorem serve_eq_some (h : d.serve a n direct = some bytes) :
    bytes = d.mem.read a (n % 2 ^ 32) ∧ 0 < n % 2 ^ 32 ∧ n % 2 ^ 32 < 2 ^ 31 ∧
      (direct = true → d.blockSize ∣ a ∧ d.blockSize ∣ n % 2 ^ 32) := by
  unfold Zbd.serve Zbd.read at h
  split at h
  · cases h
  · rename_i hdirect
    split at h
    · rename_i hn
      refine ⟨(Option.some.inj h).symm, hn.1, hn.2, ?_⟩
      rintro rfl
      simp only [Bool.true_and, Bool.or_eq_true, bne_iff_ne, not_or, not_not] at hdirect
      exact ⟨Nat.dvd_of_mod_eq_zero hdirect.1, Nat.dvd_of_mod_eq_zero hdirect.2⟩
    · cases h

theorem length_of_serve (h : d.serve a n direct = some bytes) : bytes.length = n % 2 ^ 32 := by
  rw [(serve_eq_some h).1, Mem.length_read]

theorem serve_of_mod_eq_zero (h : n % 2 ^ 32 = 0) : d.serve a n direct = none := by
  unfold Zbd.serve Zbd.read
  split
  · rfl
  · rw [h]
    rfl

/-- Behind a piece that is not served as a whole nothing is served: its length is not an
`int`, and what is left of it is a multiple of what an `int` can hold. -/
theorem serve_rest {p : Nat} (h : d.serve a (ask d.blockSize direct p) direct = some bytes)
    (hlt : bytes.length < p) (a' : Nat) :
    d.serve a' (ask d.blockSize direct (p - bytes.length)) direct = none := by
  have hlen := length_of_serve h
  apply serve_of_mod_eq_zero
  cases direct with
  | false =>
      rw [ask_false] at hlen ⊢
      omega
  | true =>
      have hdvd : d.blockSize ∣ bytes.length := hlen ▸ ((serve_eq_some h).2.2.2 rfl).2
      rw [ask_sub hdvd hlt.le]
      omega

/-- What the device returns for a piece. -/
theorem serve_piece {p : Piece} : d.serve p.start (ask d.blockSize direct p.asked) direct =
    if Served d.blockSize direct p then some (d.mem.read p.start (got d.blockSize direct p))
    else none := by
  have hdvd : (direct && (p.start % d.blockSize != 0 || got d.blockSize direct p % d.blockSize !=
    0)) = false ↔
      (direct = true → d.blockSize ∣ p.start ∧ d.blockSize ∣ got d.blockSize direct p) := by
    cases direct with
    | false => simp
    | true => simp [Nat.dvd_iff_mod_eq_zero]
  show (if (direct && (p.start % d.blockSize != 0 || got d.blockSize direct p % d.blockSize != 0)) =
    true then none else d.read p.start (ask d.blockSize direct p.asked)) = _
  cases hb : (direct &&
    (p.start % d.blockSize != 0 || got d.blockSize direct p % d.blockSize != 0)) with
  | false =>
      have hread : d.read p.start (ask d.blockSize direct p.asked) =
          if 0 < got d.blockSize direct p ∧ got d.blockSize direct p < 2 ^ 31 then
            some (d.mem.read p.start (got d.blockSize direct p)) else none := rfl
      rw [if_neg Bool.false_ne_true, hread]
      by_cases hs : 0 < got d.blockSize direct p ∧ got d.blockSize direct p < 2 ^ 31
      · rw [if_pos hs, if_pos ⟨hs, hdvd.mp hb⟩]
      · rw [if_neg hs, if_neg fun h ↦ hs h.1]
  | true =>
      rw [if_pos rfl, if_neg]
      rintro ⟨-, h⟩
      rw [hdvd.mpr h] at hb
      cases hb

end Serve

/-! ## The loop walks along the pieces -/

section Loop

variable {d : Zbd} {es pre post : List ZoneExtent} {e : ZoneExtent} {offset r_sz : Nat}
  {direct : Bool}

theorem wholePieces_zero (es : List ZoneExtent) : wholePieces es 0 = [] := by
  cases es <;> rfl

/-- The loop is done. -/
theorem readLoop_done {fuel r_off extent_end : Nat} {s : Scratch} :
    readLoop d es offset r_sz direct fuel r_off extent_end r_sz s = (s, r_sz, .ok) := by
  cases fuel with
  | zero => rfl
  | succ fuel => rw [readLoop, if_pos rfl]

/-- A part of what is asked for has been read. -/
theorem preadSz_add (r_off extent_end : Nat) {left k : Nat} (hk : k ≤ left) :
    preadSz (r_off + k) extent_end (left - k) = preadSz r_off extent_end left - k := by
  have hsum : left - k + (r_off + k) = left + r_off := by omega
  rw [preadSz, preadSz, hsum]
  split <;> omega

/-- What is asked for is the piece, unless the sum of 64 bits has wrapped around. -/
theorem preadSz_cases {k : Nat} (want : Nat) (hend : e.start + e.length ≤ 2 ^ 63)
    (hk : k < e.length) :
    preadSz (e.start + k) (e.start + e.length) want = min want (e.length - k) ∨
      preadSz (e.start + k) (e.start + e.length) want = want ∧ e.length - k < want ∧
      2 ^ 63 ≤ want := by
  have hmod := Nat.mod_le (want + (e.start + k)) (2 ^ 64)
  rw [preadSz]
  split <;> omega

theorem readLoop_eq_walk (hpos : ∀ e ∈ es, 0 < e.length)
    (hend : ∀ e ∈ es, e.start + e.length ≤ 2 ^ 63) (fuel : Nat) :
    ∀ (pre post : List ZoneExtent) (e : ZoneExtent) (k read : Nat) (s : Scratch),
      r_sz - read < fuel → read < r_sz → es = pre ++ e :: post →
      offset + read = totalLength pre + k → k < e.length →
      readLoop d es offset r_sz direct fuel (e.start + k) (e.start + e.length) read s =
        walk d direct (pieceOf e k (r_sz - read) ::
          wholePieces post (r_sz - read - min (r_sz - read) (e.length - k))) read s := by
  induction fuel with
  | zero => exact fun _ _ _ _ _ _ h ↦ absurd h (Nat.not_lt_zero _)
  | succ fuel ih =>
      intro pre post e k read s hfuel hlt hes hoff hk
      have hcases := preadSz_cases (r_sz - read) (hend e (by rw [hes]; simp)) hk
      have hrest := fun j (hj : j ≤ r_sz - read) ↦
        preadSz_add (e.start + k) (e.start + e.length) hj
      rw [readLoop, if_neg hlt.ne, walk, pieceOf]
      dsimp only
      generalize hasked : preadSz (e.start + k) (e.start + e.length) (r_sz - read) =
        asked at hcases hrest ⊢
      generalize hmin : min (r_sz - read) (e.length - k) = p at hcases ⊢
      cases hserve : d.serve (e.start + k) (ask d.blockSize direct asked) direct with
      | none =>
          rw [ask] at hserve
          rw [hserve]
      | some bytes =>
          have hserve' := hserve
          rw [ask] at hserve
          rw [hserve]
          dsimp only
          have hgot : (if bytes.length ≤ asked then bytes.length else asked) =
              min bytes.length asked := by
            split <;> omega
          have hbytes := serve_eq_some hserve'
          have hlen := length_of_serve hserve'
          rw [hgot]
          rcases eq_or_ne (min bytes.length asked) p with hfull | hshort
          · rw [if_pos hfull, hfull]
            rcases Nat.lt_or_ge (read + p) r_sz with hmore | hdone
            · -- the read goes on in the next extent
              have hpe : p = e.length - k := by omega
              have hnext : offset + (read + p) = totalLength (pre ++ [e]) := by
                simp only [totalLength_append, totalLength_cons, totalLength_nil]
                omega
              have hget : getExtent es (offset + (read + p)) = getExtent post 0 := by
                rw [hes, hnext, show pre ++ e :: post = (pre ++ [e]) ++ post by simp,
                  getExtent_append _ le_rfl, Nat.sub_self]
              rw [if_pos ⟨hmore.ne, by omega⟩, hget]
              cases post with
              | nil => rfl
              | cons e' post =>
                  have hpos' : 0 < e'.length := hpos e' (by rw [hes]; simp)
                  have hrec := ih (pre ++ [e]) post e' 0 (read + p) (s.put read bytes)
                    (by omega) hmore (by rw [hes]; simp) hnext hpos'
                  rw [getExtent, if_pos hpos']
                  simp only [Nat.add_zero, Nat.sub_zero] at hrec ⊢
                  rw [hrec, wholePieces, if_neg (by omega), Nat.sub_add_eq]
            · have heq : read + p = r_sz := by omega
              have hwant : r_sz - read - p = 0 := by omega
              rw [if_neg (fun h ↦ h.1 heq), heq, readLoop_done, hwant, wholePieces_zero, walk]
          · -- the extent does not end here, and nothing is served behind it
            have hlt' : bytes.length < asked := by omega
            have hbmin : min bytes.length asked = bytes.length := Nat.min_eq_left hlt'.le
            rw [if_neg hshort, hbmin, if_neg (by omega)]
            cases fuel with
            | zero => omega
            | succ fuel =>
                have hnone := serve_rest hserve' hlt' (e.start + k + bytes.length)
                rw [ask] at hnone
                rw [readLoop, if_neg (by omega), Nat.sub_add_eq, hrest _ (by omega)]
                simp only [hnone]

/-- Where a read begins. -/
theorem pieces_mid {k want : Nat} (hk : k < e.length) (hwant : want ≠ 0) :
    pieces (pre ++ e :: post) (totalLength pre + k) want =
      pieceOf e k want :: wholePieces post (want - min want (e.length - k)) := by
  induction pre with
  | nil =>
      simp only [List.nil_append, totalLength_nil, Nat.zero_add]
      rw [pieces, if_pos hk, if_neg hwant]
  | cons e' pre ih =>
      rw [List.cons_append, pieces, totalLength_cons, if_neg (by omega), ← ih]
      congr 1
      omega

theorem pieces_zero (es : List ZoneExtent) (offset : Nat) : pieces es offset 0 = [] := by
  induction es generalizing offset with
  | nil => rfl
  | cons e es ih =>
      rw [pieces]
      split
      · rfl
      · exact ih _

theorem pieces_eq_nil (h : totalLength es ≤ offset) (want : Nat) : pieces es offset want = [] := by
  induction es generalizing offset with
  | nil => rfl
  | cons e es ih =>
      rw [totalLength_cons] at h
      rw [pieces, if_neg (by omega)]
      exact ih (by omega)

end Loop

/-! ## The walk -/

section Walk

variable {d : Zbd} {direct : Bool} {ps : List Piece} {read n : Nat} {s : Scratch}

/-- What has been put behind the first bytes. -/
theorem read_put (s : Scratch) (read : Nat) {bytes : List Byte} {k : Nat} (hk : k ≤ bytes.length) :
    (s.put read bytes).cells.read 0 (read + k) = s.cells.read 0 read ++ bytes.take k := by
  rw [Scratch.put, Mem.read_add, Mem.read_write_of_le _ _ (Nat.zero_add read).le, Nat.zero_add,
    Mem.read_write_take _ _ _ _ hk]

/-- One piece of a walk. -/
theorem walk_cons (p : Piece) (ps : List Piece) (read : Nat) (s : Scratch) :
    walk d direct (p :: ps) read s =
      if Served d.blockSize direct p then
        if Whole d.blockSize direct p then
          walk d direct ps (read + p.length)
            (s.put read (d.mem.read p.start (got d.blockSize direct p)))
        else (s.put read (d.mem.read p.start (got d.blockSize direct p)), 0,
          .ioError "pread error\n")
      else (s, 0, .ioError "pread error\n") := by
  rw [walk, serve_piece]
  by_cases hs : Served d.blockSize direct p
  · rw [if_pos hs, if_pos hs]
    simp only [Mem.length_read, Whole, hs, true_and]
  · rw [if_neg hs, if_neg hs]

/-- Pieces that are whole are put one behind the other. -/
theorem walk_whole (h : ∀ p ∈ ps, Whole d.blockSize direct p) (read : Nat) (s : Scratch) :
    (walk d direct ps read s).2 = (read + (ps.map Piece.length).sum, .ok) ∧
      (walk d direct ps read s).1.cells.read 0 (read + (ps.map Piece.length).sum) =
        s.cells.read 0 read ++ ps.flatMap fun p ↦ d.mem.read p.start p.length := by
  induction ps generalizing read s with
  | nil => simp [walk]
  | cons p ps ih =>
      have hp := h p (List.mem_cons_self ..)
      have hle : p.length ≤ got d.blockSize direct p := hp.2 ▸ Nat.min_le_left _ _
      have hrec := ih (fun p' hp ↦ h p' (List.mem_cons_of_mem _ hp)) (read + p.length)
        (s.put read (d.mem.read p.start (got d.blockSize direct p)))
      simp only [walk_cons, if_pos hp.1, if_pos hp, List.map_cons, List.sum_cons, List.flatMap_cons]
      rw [← Nat.add_assoc, ← List.append_assoc, ← Mem.take_read d.mem p.start _ _ hle,
        ← read_put s read (hle.trans (Mem.length_read ..).ge)]
      exact hrec

/-- A piece that is not whole makes the read fail. -/
theorem walk_fails (h : ∃ p ∈ ps, ¬Whole d.blockSize direct p) (read : Nat) (s : Scratch) :
    (walk d direct ps read s).2 = (0, .ioError "pread error\n") := by
  induction ps generalizing read s with
  | nil =>
      obtain ⟨p, hp, -⟩ := h
      cases hp
  | cons p ps ih =>
      rw [walk_cons]
      split
      · split
        · rename_i hwhole
          obtain ⟨q, hq, hnot⟩ := h
          refine ih ⟨q, (List.mem_cons.mp hq).resolve_left ?_, hnot⟩ _ _
          rintro rfl
          exact hnot hwhole
        · rfl
      · rfl

/-- How far a direct read writes. -/
theorem walk_top (read : Nat) (s : Scratch) :
    (walk d true ps read s).1.top ≤ n ↔ s.top ≤ n ∧ Fits d.blockSize n read ps := by
  induction ps generalizing read s with
  | nil => simp [walk, Fits]
  | cons p ps ih =>
      rw [walk_cons, Fits]
      by_cases hs : Served d.blockSize true p
      · by_cases hw : Whole d.blockSize true p
        · rw [if_pos hs, if_pos hw, ih]
          simp only [Scratch.put, Mem.length_read, Nat.max_le, hs, hw, true_imp_iff, and_assoc]
        · rw [if_pos hs, if_neg hw]
          simp only [Scratch.put, Mem.length_read, Nat.max_le, hs, hw, true_imp_iff,
            false_imp_iff, and_true]
      · rw [if_neg hs]
        simp only [hs, false_imp_iff, and_true]

end Walk

/-! ## Both reads -/

section Both

variable {d : Zbd} {f : ZoneFile} {offset n : Nat} {scratch : Mem Byte}

/-- A read is nothing but a walk along its pieces. -/
theorem positionedRead_eq_walk (hpos : ∀ e ∈ f.extents, 0 < e.length)
    (hend : ∀ e ∈ f.extents, e.start + e.length ≤ 2 ^ 63) (direct : Bool) :
    positionedRead d f offset n direct scratch =
      let r := walk d direct (readPieces f offset n) 0 ⟨scratch, 0⟩
      (r.1.cells.read 0 r.2.1, r.2.2, r.1.top) := by
  rw [positionedRead, readPieces]
  split
  · rfl
  · cases hget : getExtent f.extents offset with
    | none =>
        rw [pieces_eq_nil (getExtent_eq_none.mp hget)]
        rfl
    | some p =>
        obtain ⟨e, a⟩ := p
        obtain ⟨pre, post, k, hes, rfl, hk, rfl⟩ := getExtent_eq_some hget
        dsimp only
        rcases Nat.eq_zero_or_pos (readSize f (totalLength pre + k) n) with hzero | hwant
        · rw [hzero, pieces_zero]
          rfl
        · have hwalk : readLoop d f.extents (totalLength pre + k)
            (readSize f (totalLength pre + k) n) direct
              (readSize f (totalLength pre + k) n + 1) (e.start + k) (e.start + e.length) 0
              ⟨scratch, 0⟩ = _ :=
            readLoop_eq_walk hpos hend _ pre post e k 0 _ (by omega) hwant hes rfl hk
          have hpieces : pieces f.extents (totalLength pre + k)
              (readSize f (totalLength pre + k) n) = _ :=
            hes ▸ pieces_mid hk hwant.ne'
          simp only [hwalk, hpieces, Nat.sub_zero]

/-- Walks along the same pieces agree exactly if the pieces can be served. -/
theorem walks_agree_iff {ps : List Piece} :
    (let plain := walk d false ps 0 ⟨scratch, 0⟩
      let direct := walk d true ps 0 ⟨scratch, 0⟩
      direct.1.cells.read 0 direct.2.1 = plain.1.cells.read 0 plain.2.1 ∧ direct.2.2 = plain.2.2 ∧
        direct.1.top ≤ n) ↔ Servable d.blockSize n ps := by
  have htop : (walk d true ps 0 ⟨scratch, 0⟩).1.top ≤ n ↔ 0 ≤ n ∧ Fits d.blockSize n 0 ps :=
    walk_top 0 _
  simp only [Nat.zero_le, true_and] at htop
  dsimp only
  rw [htop, Servable]
  by_cases hplain : ∀ p ∈ ps, Whole d.blockSize false p <;> by_cases hdirect : ∀ p ∈ ps,
    Whole d.blockSize true p
  · obtain ⟨hst, hbytes⟩ := walk_whole hplain 0 ⟨scratch, 0⟩
    obtain ⟨hst', hbytes'⟩ := walk_whole hdirect 0 ⟨scratch, 0⟩
    rw [hst, hst', hbytes, hbytes']
    exact ⟨fun h ↦ ⟨h.2.2, .inl fun p hp ↦ ⟨hplain p hp, hdirect p hp⟩⟩, fun h ↦ ⟨rfl, rfl, h.1⟩⟩
  · have hnot : ∃ p ∈ ps, ¬Whole d.blockSize true p := by simpa using hdirect
    rw [(walk_whole hplain 0 ⟨scratch, 0⟩).1, walk_fails hnot]
    refine iff_of_false ?_ ?_
    · rintro ⟨-, ⟨⟩, -⟩
    · rintro ⟨-, h | ⟨⟨p, hp, h⟩, -⟩⟩
      · exact hdirect fun p hp ↦ (h p hp).2
      · exact h (hplain p hp)
  · have hnot : ∃ p ∈ ps, ¬Whole d.blockSize false p := by simpa using hplain
    rw [(walk_whole hdirect 0 ⟨scratch, 0⟩).1, walk_fails hnot]
    refine iff_of_false ?_ ?_
    · rintro ⟨-, ⟨⟩, -⟩
    · rintro ⟨-, h | ⟨-, ⟨p, hp, h⟩⟩⟩
      · exact hplain fun p hp ↦ (h p hp).1
      · exact h (hdirect p hp)
  · have hnot : ∃ p ∈ ps, ¬Whole d.blockSize false p := by simpa using hplain
    have hnot' : ∃ p ∈ ps, ¬Whole d.blockSize true p := by simpa using hdirect
    rw [walk_fails hnot, walk_fails hnot']
    exact ⟨fun h ↦ ⟨h.2.2, .inr ⟨hnot, hnot'⟩⟩, fun h ↦ ⟨rfl, rfl, h.1⟩⟩

/-- A direct read of a file whose extents lie on the device gives what a plain one gives,
inside of the first `n` bytes of `scratch`, exactly if its pieces can be served. -/
theorem agrees_iff (hpos : ∀ e ∈ f.extents, 0 < e.length)
    (hend : ∀ e ∈ f.extents, e.start + e.length ≤ 2 ^ 63) :
    Agrees d f offset n scratch ↔ Servable d.blockSize n (readPieces f offset n) := by
  rw [Agrees, positionedRead_eq_walk hpos hend, positionedRead_eq_walk hpos hend]
  exact walks_agree_iff

end Both

/-! ## Plain reads -/

section Plain

variable {d : Zbd} {f : ZoneFile} {es : List ZoneExtent} {offset n r_sz : Nat}

theorem preadSz_of_lt {r_off extent_end left : Nat} (h : left + r_off < 2 ^ 64) :
    preadSz r_off extent_end left = if extent_end < left + r_off then extent_end - r_off
    else left := by
  rw [preadSz, Nat.mod_eq_of_lt h]

/-- The loop with the memory of the caller and the one with a list of bytes. -/
theorem readLoop_plain (hend : ∀ e ∈ es, e.start + e.length ≤ 2 ^ 63) (hsz : r_sz < 2 ^ 63)
    (fuel : Nat) :
    ∀ (r_off extent_end read : Nat) (s : Scratch), r_off ≤ extent_end → extent_end ≤ 2 ^ 63 →
    read ≤ r_sz →
      ZenFs.readLoop d es offset r_sz false fuel r_off extent_end (s.cells.read 0 read) =
        let r := readLoop d es offset r_sz false fuel r_off extent_end read s
        (r.1.cells.read 0 r.2.1, r.2.2) := by
  induction fuel with
  | zero => exact fun _ _ _ _ _ _ _ ↦ rfl
  | succ fuel ih =>
      intro r_off extent_end read s hr hext hread
      rw [ZenFs.readLoop, readLoop, Mem.length_read]
      by_cases hdone : read = r_sz
      · rw [if_pos hdone, if_pos hdone]
      rw [if_neg hdone, if_neg hdone, preadSz_of_lt (by omega)]
      have hserve : ∀ m, d.serve r_off m false = d.read r_off m := fun m ↦ by
        rw [Zbd.serve, Bool.false_and, if_neg Bool.false_ne_true]
      generalize hp : (if extent_end < r_sz - read + r_off then extent_end - r_off
        else r_sz - read) = p
      have hple : read + p ≤ r_sz ∧ r_off + p ≤ extent_end := by
        rw [← hp]
        split <;> omega
      simp only [hserve, bytesToAlign, Bool.false_and, Bool.false_eq_true, if_false, Nat.add_zero]
      cases hbytes : d.read r_off p with
      | none => rfl
      | some bytes =>
          dsimp only
          have htake : bytes.take p =
              bytes.take (if bytes.length ≤ p then bytes.length else p) := by
            split
            · rename_i hle
              rw [List.take_of_length_le hle, List.take_length]
            · rfl
          generalize hgot : (if bytes.length ≤ p then bytes.length else p) = got at htake
          have hle : got ≤ p ∧ got ≤ bytes.length := by
            rw [← hgot]
            split <;> omega
          have hlen : (bytes.take p).length = got := by
            rw [htake, List.length_take, Nat.min_eq_left hle.2]
          have hput := read_put s read hle.2
          rw [← htake] at hput
          rw [← hput, Mem.length_read, hlen]
          by_cases hnext : read + got ≠ r_sz ∧ r_off + got = extent_end
          · rw [if_pos hnext, if_pos hnext]
            cases hget : getExtent es (offset + (read + got)) with
            | none => rfl
            | some x =>
                obtain ⟨e, a⟩ := x
                obtain ⟨pre, post, k, rfl, -, -, -⟩ := getExtent_eq_some hget
                exact ih e.start (e.start + e.length) (read + got) (s.put read bytes)
                  (Nat.le_add_right _ _) (hend e (by simp)) (by omega)
          · rw [if_neg hnext, if_neg hnext]
            exact ih (r_off + got) extent_end (read + got) (s.put read bytes) (by omega)
              hext (by omega)

/-- As long as no sum of 64 bits wraps around, a plain read into the memory of a caller
gives the bytes and the status of `PositionedRead`. -/
theorem positionedRead_plain (hend : ∀ e ∈ f.extents, e.start + e.length ≤ 2 ^ 63)
    (hsize : f.fileSize < 2 ^ 63) (hn : offset + n < 2 ^ 64) (scratch : Mem Byte) :
    let r := positionedRead d f offset n false scratch
    ZenFs.positionedRead d f offset n false = (r.1, r.2.1) := by
  rw [positionedRead, ZenFs.positionedRead, readSize, Nat.mod_eq_of_lt hn]
  split
  · rfl
  · rename_i hlt
    cases hget : getExtent f.extents offset with
    | none => rfl
    | some x =>
        obtain ⟨e, a⟩ := x
        obtain ⟨pre, post, k, hes, -, hk, rfl⟩ := getExtent_eq_some hget
        dsimp only
        refine readLoop_plain hend ?_ _ (e.start + k) (e.start + e.length) 0 ⟨scratch, 0⟩ (by omega)
          (hend e (by rw [hes]; simp)) (Nat.zero_le _)
        split <;> omega

end Plain

/-- A device with blocks of 4096 bytes. -/
def fourK : Zbd where
  blockSize := 4096
  zoneSize := 65536
  nrZones := 1
  zones _ := default
  mem a := UInt8.ofNat a

/-- A file with an extent of 5000 bytes in front of one of `n` bytes. -/
def twoExtents (n : Nat) : ZoneFile where
  fileId := 1
  fileSize := 5000 + n
  extents := [⟨0, 5000, 0⟩, ⟨8192, n, 0⟩]

/-- The first block of the file is read. -/
theorem agrees_firstBlock : Agrees fourK (twoExtents 3000) 0 4096 fun _ ↦ 0 :=
  (agrees_iff (by decide) (by decide)).mpr (by decide +kernel)

/-- Two blocks that reach into the second extent: its last block is read to 9096 bytes
behind the start of a buffer of 8192.  And a block in the middle of the second extent,
which begins at the device offset 11384: only the plain read is served. -/
theorem direct_differs :
    ¬Agrees fourK (twoExtents 3000) 0 8192 (fun _ ↦ 0) ∧
    ¬Agrees fourK (twoExtents 8192) 8192 4096 fun _ ↦ 0 := by
  have hnot (k : Nat) (hk : 0 < k) (hlt : k < 2 ^ 32) (offset n : Nat)
      (h : ¬Servable 4096 n (readPieces (twoExtents k) offset n)) : ¬Agrees fourK (twoExtents k)
      offset n fun _ ↦ 0 := by
    have hextents : ∀ e ∈ (twoExtents k).extents, 0 < e.length ∧ e.start + e.length ≤ 2 ^ 63 := by
      intro e he
      simp only [twoExtents, List.mem_cons, List.not_mem_nil, or_false] at he
      rcases he with rfl | rfl
      · decide
      · dsimp only
        omega
    have hpos := fun e he ↦ (hextents e he).1
    have hend := fun e he ↦ (hextents e he).2
    rw [Agrees, positionedRead_eq_walk hpos hend, positionedRead_eq_walk hpos hend]
    exact fun hagree ↦ h (walks_agree_iff.mp hagree)
  exact ⟨hnot _ (by decide) (by decide) _ _ (by decide +kernel), hnot _ (by decide) (by decide) _ _
    (by decide +kernel)⟩

end DirectRead

end ZenFs
