import ZenFs.File.Read
import ZenFs.Lib.Loop
import Mathlib.Data.List.Infix

/-!
# Copying a file

`zenfs_tool_copy_file` reads a file in chunks of at most 1 MiB and appends each chunk to
another file.  Its loop ends when all bytes have been read, or when a read fails; the status
of an append is overwritten by the next read.
-/

namespace ZenFs

namespace Tool

/-- The size of the buffer. -/
def buffer_sz : Nat := 1024 * 1024

/-- A file that is read in order: what the `i`-th call of `Read` does at position `rp` if it is
asked for `n` bytes.  A call that succeeds delivers the next bytes of the file, or the first
of them. -/
structure SequentialFile where
  contents : List Byte
  read : Nat → Nat → Nat → Status × List Byte
  read_initial : ∀ i rp n, n ≤ buffer_sz → (read i rp n).1 = .ok →
    (read i rp n).2 <+: (contents.drop rp).take n

/-- What the other calls report.  An append that fails may leave some of its bytes in the
file. -/
structure Outcomes where
  getFileSize : Status := .ok
  newSequentialFile : Status := .ok
  newWritableFile : Status := .ok
  buffer : Bool := true
  append : Nat → Status × Nat := fun _ ↦ (.ok, 0)
  fsync : Status := .ok

/-- The variables of the loop, the number of chunks so far, and the bytes of the other
file. -/
structure Copy where
  to_copy : Nat
  rp : Nat := 0
  chunks : Nat := 0
  s : Status := .ok
  dest : List Byte := []
deriving DecidableEq

variable (f : SequentialFile) (o : Outcomes)

/-- The body of the loop, and what follows it. -/
def turn (c : Copy) : (Status × List Byte) ⊕ Copy :=
  if c.to_copy = 0 then .inl (if c.s.isOk then o.fsync else c.s, c.dest)
  else
    match f.read c.chunks c.rp (min c.to_copy buffer_sz) with
    | (.ok, chunk_slice) =>
        .inr
          { to_copy := c.to_copy - chunk_slice.length
            rp := c.rp + chunk_slice.length
            chunks := c.chunks + 1
            s := (o.append c.chunks).1
            dest := c.dest ++ if (o.append c.chunks).1.isOk then chunk_slice
            else chunk_slice.take (o.append c.chunks).2 }
    | (s, _) => .inl (s, c.dest)

/-- The loop begins with the size of the file. -/
def start : Copy := { to_copy := f.contents.length }

/-- `zenfs_tool_copy_file`, with a bound on the number of turns. -/
def zenfsToolCopyFile (fuel : Nat) : Option (Status × List Byte) :=
  if !o.getFileSize.isOk then some (o.getFileSize, [])
  else if !o.newSequentialFile.isOk then some (o.newSequentialFile, [])
  else if !o.newWritableFile.isOk then some (o.newWritableFile, [])
  else if !o.buffer then some (.ioError "Failed to allocate copy buffer", [])
  else Loop.run (turn f o) fuel (start f)

/-- Nothing fails in front of the loop. -/
def Outcomes.opens : Bool :=
  o.getFileSize.isOk && o.newSequentialFile.isOk && o.newWritableFile.isOk && o.buffer

/-- The loop gets to `c`. -/
def Enters (c : Copy) : Prop := o.opens = true ∧ Loop.Head (turn f o) (start f) c

/-- The copy ends, and all bytes are there if it succeeds; an append that fails is reported,
and a read that returns nothing ends the copy with an error. -/
structure Faithful : Prop where
  terminates : ∃ fuel r, zenfsToolCopyFile f o fuel = some r
  complete : ∀ fuel dest, zenfsToolCopyFile f o fuel = some (.ok, dest) → dest = f.contents
  reported : ∀ c chunk_slice, Enters f o c → c.to_copy ≠ 0 →
    f.read c.chunks c.rp (min c.to_copy buffer_sz) = (.ok, chunk_slice) →
    (o.append c.chunks).1 ≠ .ok →
      ∀ fuel r, zenfsToolCopyFile f o fuel = some r → r.1 ≠ .ok
  ends : ∀ c, Enters f o c → c.to_copy ≠ 0 →
    f.read c.chunks c.rp (min c.to_copy buffer_sz) = (.ok, []) →
    ∃ r, turn f o c = .inl r ∧ r.1 ≠ .ok

/-! ## The reads and the appends of a copy -/

/-- Where the `i`-th read begins if no read fails. -/
def position : Nat → Nat
  | 0 => 0
  | i + 1 =>
      position i + (f.read i (position i) (min (f.contents.length - position i) buffer_sz)).2.length

/-- The `i`-th read. -/
def chunk (i : Nat) : Status × List Byte :=
  f.read i (position f i) (min (f.contents.length - position f i) buffer_sz)

/-- The file is not read to its end by the first `i` reads, and none of them fails. -/
def Reads (i : Nat) : Prop := position f i < f.contents.length ∧ ∀ j < i, (chunk f j).1 = .ok

/-- What the first `i` appends leave. -/
def sent : Nat → List Byte
  | 0 => []
  | i + 1 => sent i ++ if (o.append i).1.isOk then (chunk f i).2
      else (chunk f i).2.take (o.append i).2

/-- The variables behind `i` chunks. -/
def copyAt (i : Nat) : Copy where
  to_copy := f.contents.length - position f i
  rp := position f i
  chunks := i
  s := if i = 0 then .ok else (o.append (i - 1)).1
  dest := sent f o i

section Reads

variable {f o} {i j : Nat}

theorem position_succ (f : SequentialFile) (i : Nat) :
    position f (i + 1) = position f i + (chunk f i).2.length := rfl

theorem position_mono (h : i ≤ j) : position f i ≤ position f j := by
  induction h with
  | refl => exact le_rfl
  | step _ ih => exact ih.trans (Nat.le_add_right _ _)

theorem chunk_initial (h : (chunk f i).1 = .ok) :
    (chunk f i).2 <+: f.contents.drop (position f i) :=
  (f.read_initial i _ _ (min_le_right _ _) h).trans (List.take_prefix _ _)

theorem position_succ_le (hle : position f i ≤ f.contents.length) (h : (chunk f i).1 = .ok) :
    position f (i + 1) ≤ f.contents.length := by
  have hlength := (chunk_initial h).length_le
  rw [List.length_drop] at hlength
  rw [position_succ]
  omega

theorem Reads.le (h : ∀ j < i, Reads f j ∧ (chunk f j).1 = .ok) :
    position f i ≤ f.contents.length := by
  cases i with
  | zero => exact Nat.zero_le _
  | succ i =>
      obtain ⟨hreads, hok⟩ := h i (Nat.lt_succ_self i)
      exact position_succ_le hreads.1.le hok

/-- A read that is not the last one comes in front of the end. -/
theorem Reads.lt (h : Reads f i) (hend : position f j = f.contents.length) : i < j := by
  by_contra hle
  have := position_mono (f := f) (not_lt.mp hle)
  have := h.1
  omega

theorem turn_read (hreads : Reads f i) (hok : (chunk f i).1 = .ok) :
    turn f o (copyAt f o i) = .inr (copyAt f o (i + 1)) := by
  obtain ⟨chunk_slice, hchunk⟩ : ∃ chunk_slice, chunk f i = (.ok, chunk_slice) :=
    ⟨_, Prod.ext hok rfl⟩
  have hpos : (copyAt f o i).to_copy ≠ 0 := Nat.sub_ne_zero_of_lt hreads.1
  unfold turn
  rw [if_neg hpos]
  show (match chunk f i with | (.ok, chunk_slice) => _ | (s, _) => _) = _
  rw [hchunk]
  simp only [copyAt, position_succ, sent, hchunk, Nat.succ_ne_zero, if_false, Nat.add_sub_cancel,
    Nat.sub_add_eq]
  rfl

theorem turn_fail (hreads : Reads f i) (hfail : (chunk f i).1 ≠ .ok) :
    turn f o (copyAt f o i) = .inl ((chunk f i).1, sent f o i) := by
  have hpos : (copyAt f o i).to_copy ≠ 0 := Nat.sub_ne_zero_of_lt hreads.1
  unfold turn
  rw [if_neg hpos]
  show (match chunk f i with | (.ok, chunk_slice) => _ | (s, _) => _) = _
  split
  · rename_i hchunk
    exact absurd (congrArg Prod.fst hchunk) hfail
  · rename_i hchunk
    rw [hchunk]
    rfl

theorem turn_end (hend : position f i = f.contents.length) :
    turn f o (copyAt f o i) = .inl (if (copyAt f o i).s.isOk then o.fsync else (copyAt f o i).s,
      sent f o i) :=
  if_pos (Nat.sub_eq_zero_of_le hend.ge)

/-- Behind some chunks, the loop goes on with the next one, or ends at a read that fails or
at the end of the file. -/
theorem turn_cases (hi : ∀ j < i, Reads f j ∧ (chunk f j).1 = .ok) :
    (Reads f i ∧ (chunk f i).1 = .ok ∧ turn f o (copyAt f o i) = .inr (copyAt f o (i + 1))) ∨
      (Reads f i ∧ (chunk f i).1 ≠ .ok ∧
        turn f o (copyAt f o i) = .inl ((chunk f i).1, sent f o i)) ∨
      (position f i = f.contents.length ∧ turn f o (copyAt f o i) =
        .inl (if (copyAt f o i).s.isOk then o.fsync else (copyAt f o i).s, sent f o i)) := by
  rcases (Reads.le hi).lt_or_eq with hlt | hend
  · have hreads : Reads f i := ⟨hlt, fun j hj ↦ (hi j hj).2⟩
    by_cases hok : (chunk f i).1 = .ok
    · exact .inl ⟨hreads, hok, turn_read hreads hok⟩
    · exact .inr (.inl ⟨hreads, hok, turn_fail hreads hok⟩)
  · exact .inr (.inr ⟨hend, turn_end hend⟩)

/-- The loop gets to the chunks that are read, one after the other. -/
theorem head_iff {c : Copy} :
    Loop.Head (turn f o) (start f) c ↔ ∃ i, c = copyAt f o i ∧ ∀ j < i, Reads f j ∧
    (chunk f j).1 = .ok := by
  constructor
  · intro h
    induction h with
    | start => exact ⟨0, rfl, fun _ hj ↦ absurd hj (Nat.not_lt_zero _)⟩
    | next _ hturn ih =>
        obtain ⟨i, rfl, hi⟩ := ih
        rcases turn_cases (o := o) hi with ⟨hreads, hok, heq⟩ | ⟨-, -, heq⟩ | ⟨-, heq⟩
        · rw [hturn] at heq
          refine ⟨i + 1, Sum.inr.inj heq, fun j hj ↦ ?_⟩
          rcases Nat.lt_succ_iff_lt_or_eq.mp hj with hj | rfl
          · exact hi j hj
          · exact ⟨hreads, hok⟩
        · rw [hturn] at heq
          cases heq
        · rw [hturn] at heq
          cases heq
  · rintro ⟨i, rfl, hi⟩
    induction i with
    | zero => exact .start
    | succ i ih =>
        obtain ⟨hreads, hok⟩ := hi i (Nat.lt_succ_self i)
        exact (ih fun j hj ↦ hi j (Nat.lt_succ_of_lt hj)).next (turn_read hreads hok)

theorem head_copyAt (h : Reads f i) : Loop.Head (turn f o) (start f) (copyAt f o i) :=
  head_iff.mpr ⟨i, rfl, fun j hj ↦
    ⟨⟨(position_mono hj.le).trans_lt h.1, fun k hk ↦ h.2 k (hk.trans hj)⟩, h.2 j hj⟩⟩

/-- The read behind some chunks, as the loop makes it. -/
theorem read_copyAt (f : SequentialFile) (o : Outcomes) (i : Nat) :
    f.read (copyAt f o i).chunks (copyAt f o i).rp (min (copyAt f o i).to_copy buffer_sz) =
    chunk f i := rfl

/-- If no append fails, all bytes that are read are sent. -/
theorem sent_eq (hi : ∀ j < i, Reads f j ∧ (chunk f j).1 = .ok)
    (happend : ∀ j < i, (o.append j).1 = .ok) : sent f o i = f.contents.take (position f i) := by
  induction i with
  | zero => rfl
  | succ i ih =>
      obtain ⟨hreads, hok⟩ := hi i (Nat.lt_succ_self i)
      rw [sent, happend i (Nat.lt_succ_self i), ih (fun j hj ↦ hi j (Nat.lt_succ_of_lt hj))
        (fun j hj ↦ happend j (Nat.lt_succ_of_lt hj)), position_succ, List.take_add]
      exact congrArg (_ ++ ·) (List.prefix_iff_eq_take.mp (chunk_initial hok))

end Reads

/-! ## When the copy is faithful -/

/-- The `i`-th append is made, and fails. -/
def AppendFails (i : Nat) : Prop := Reads f i ∧ (chunk f i).1 = .ok ∧ (o.append i).1 ≠ .ok

/-- Every read that succeeds returns data. -/
def ReadsData : Prop := ∀ i, Reads f i → (chunk f i).1 = .ok → (chunk f i).2 ≠ []

/-- If an append fails, then so does a read behind it, the last append, or the sync. -/
def FailureShows : Prop :=
  (∃ i, AppendFails f o i) → (∃ i, Reads f i ∧ (chunk f i).1 ≠ .ok) ∨
    (∃ i, AppendFails f o i ∧ position f (i + 1) = f.contents.length) ∨ o.fsync ≠ .ok

variable {f o}

theorem zenfsToolCopyFile_of_opens (h : o.opens = true) (fuel : Nat) :
    zenfsToolCopyFile f o fuel = Loop.run (turn f o) fuel (start f) := by
  simp only [Outcomes.opens, Bool.and_eq_true] at h
  simp [zenfsToolCopyFile, h]

/-- A call that fails in front of the loop is reported. -/
theorem zenfsToolCopyFile_of_not_opens (h : o.opens = false) :
    ∃ s ≠ Status.ok, ∀ fuel, zenfsToolCopyFile f o fuel = some (s, []) := by
  have hne : ∀ {s : Status}, s.isOk = false → s ≠ .ok := by
    rintro s hs rfl
    cases hs
  unfold zenfsToolCopyFile
  cases h1 : o.getFileSize.isOk
  · exact ⟨_, hne h1, fun _ ↦ rfl⟩
  cases h2 : o.newSequentialFile.isOk
  · exact ⟨_, hne h2, fun _ ↦ rfl⟩
  cases h3 : o.newWritableFile.isOk
  · exact ⟨_, hne h3, fun _ ↦ rfl⟩
  cases h4 : o.buffer
  · exact ⟨.ioError "Failed to allocate copy buffer", by simp, fun _ ↦ rfl⟩
  · simp [Outcomes.opens, h1, h2, h3, h4] at h

/-- What a copy ends with: a read has failed, or the last append or the sync tells. -/
theorem exists_end (h : o.opens = true) {fuel : Nat} {r : Status × List Byte}
    (hr : zenfsToolCopyFile f o fuel = some r) :
    ∃ i, (∀ j < i, Reads f j ∧ (chunk f j).1 = .ok) ∧
      ((Reads f i ∧ (chunk f i).1 ≠ .ok ∧ r = ((chunk f i).1, sent f o i)) ∨
        (position f i = f.contents.length ∧
          r = (if (copyAt f o i).s.isOk then o.fsync else (copyAt f o i).s, sent f o i))) := by
  rw [zenfsToolCopyFile_of_opens h] at hr
  obtain ⟨c, hc, hturn⟩ := Loop.exists_head hr
  obtain ⟨i, rfl, hi⟩ := head_iff.mp hc
  refine ⟨i, hi, ?_⟩
  rcases turn_cases (o := o) hi with ⟨-, -, heq⟩ | ⟨hreads, hfail, heq⟩ | ⟨hend, heq⟩
  · rw [hturn] at heq
    cases heq
  · rw [hturn] at heq
    exact .inl ⟨hreads, hfail, Sum.inl.inj heq⟩
  · rw [hturn] at heq
    exact .inr ⟨hend, Sum.inl.inj heq⟩

/-- A copy that succeeds has read the file to its end, and no append has failed. -/
theorem appends_of_ok (h : o.opens = true) (hshows : FailureShows f o) {fuel : Nat}
    {r : Status × List Byte} (hr : zenfsToolCopyFile f o fuel = some r) (hok : r.1 = .ok) :
    ∃ i, (∀ j < i, Reads f j ∧ (chunk f j).1 = .ok) ∧ position f i = f.contents.length ∧
      (∀ j < i, (o.append j).1 = .ok) ∧ r.2 = sent f o i := by
  obtain ⟨i, hi, ⟨-, hfail, rfl⟩ | ⟨hend, rfl⟩⟩ := exists_end h hr
  · exact absurd hok hfail
  refine ⟨i, hi, hend, ?_, rfl⟩
  by_contra hnot
  push Not at hnot
  obtain ⟨j, hj, happend⟩ := hnot
  obtain ⟨hlast, hfsync⟩ : (copyAt f o i).s = .ok ∧ o.fsync = .ok := by
    dsimp only at hok
    split at hok
    · rename_i hs
      exact ⟨Status.isOk_iff.mp hs, hok⟩
    · rename_i hs
      rw [hok] at hs
      exact absurd rfl hs
  rcases hshows ⟨j, (hi j hj).1, (hi j hj).2, happend⟩ with ⟨k, hreads, hfail⟩ |
    ⟨k, ⟨hreads, hchunk, hk⟩, hkend⟩ | hsync
  · exact hfail (hi k (hreads.lt hend)).2
  · have hki := hreads.lt hend
    -- no read follows it, since it reaches the end
    have hlast_eq : i = k + 1 := by
      by_contra hne
      have hnext := (hi (k + 1) (by omega)).1.1
      omega
    subst hlast_eq
    exact hk hlast
  · exact hsync hfsync

/-- Each read that returns data brings the end nearer. -/
theorem exists_copy (h : o.opens = true) (hdata : ReadsData f) :
    ∃ fuel r, zenfsToolCopyFile f o fuel = some r := by
  have hless : ∀ c, Loop.Head (turn f o) (start f) c → ∀ c', turn f o c = .inr c' →
      c'.to_copy < c.to_copy := by
    intro c hc c' hturn
    obtain ⟨i, rfl, hi⟩ := head_iff.mp hc
    rcases turn_cases (o := o) hi with ⟨hreads, hok, heq⟩ | ⟨-, -, heq⟩ | ⟨-, heq⟩
    · rw [hturn] at heq
      obtain rfl := Sum.inr.inj heq
      have hpos := List.length_pos_iff.mpr (hdata i hreads hok)
      have hlt := hreads.1
      have hstep := position_succ f i
      show f.contents.length - position f (i + 1) < f.contents.length - position f i
      omega
    · rw [hturn] at heq
      cases heq
    · rw [hturn] at heq
      cases heq
  obtain ⟨fuel, r, hr⟩ := Loop.exists_run Copy.to_copy hless
  exact ⟨fuel, r, (zenfsToolCopyFile_of_opens h fuel).trans hr⟩

/-- The copy is faithful if and only if every read that succeeds returns data, and an append
that fails is followed by another failure. -/
theorem faithful_iff (f : SequentialFile) (o : Outcomes) :
    Faithful f o ↔ (o.opens = true → ReadsData f ∧ FailureShows f o) := by
  constructor
  · intro h hopens
    constructor
    · intro i hreads hok hnil
      have hempty : chunk f i = (.ok, []) := Prod.ext hok hnil
      obtain ⟨r, hr, -⟩ := h.ends (copyAt f o i) ⟨hopens, head_copyAt hreads⟩
        (Nat.sub_ne_zero_of_lt hreads.1) ((read_copyAt f o i).trans hempty)
      rw [turn_read hreads hok] at hr
      cases hr
    · rintro ⟨i, hreads, hok, hfail⟩
      obtain ⟨fuel, r, hr⟩ := h.terminates
      have hne := h.reported (copyAt f o i) _ ⟨hopens, head_copyAt hreads⟩
        (Nat.sub_ne_zero_of_lt hreads.1)
        ((read_copyAt f o i).trans (Prod.ext hok rfl)) hfail fuel r hr
      obtain ⟨k, hk, ⟨hkreads, hkfail, -⟩ | ⟨hend, rfl⟩⟩ := exists_end hopens hr
      · exact .inl ⟨k, hkreads, hkfail⟩
      · right
        cases k with
        | zero => exact .inr hne
        | succ k =>
            by_cases hlast : (o.append k).1 = .ok
            · right
              intro hsync
              refine hne ?_
              simp [copyAt, hlast, hsync]
            · exact .inl
                ⟨k, ⟨(hk k (Nat.lt_succ_self k)).1, (hk k (Nat.lt_succ_self k)).2, hlast⟩, hend⟩
  · intro h
    by_cases hopens : o.opens = true
    swap
    · obtain ⟨s, hs, hcopy⟩ := @zenfsToolCopyFile_of_not_opens f o (Bool.not_eq_true _ ▸ hopens)
      refine ⟨⟨0, _, hcopy 0⟩, ?_, fun c _ hc ↦ absurd hc.1 hopens, fun c hc ↦ absurd hc.1 hopens⟩
      intro fuel dest hdest
      rw [hcopy fuel] at hdest
      exact absurd (congrArg Prod.fst (Option.some.inj hdest)) hs
    obtain ⟨hdata, hshows⟩ := h hopens
    refine ⟨?_, ?_, ?_, ?_⟩
    · exact exists_copy hopens hdata
    · intro fuel dest hdest
      obtain ⟨i, hi, hend, happend, hsent⟩ := appends_of_ok hopens hshows hdest rfl
      rw [sent_eq hi happend, hend, List.take_length] at hsent
      exact hsent
    · intro c chunk_slice hc hpos hread hfail fuel r hr hok
      obtain ⟨i, hi, hend, happend, -⟩ := appends_of_ok hopens hshows hr hok
      obtain ⟨j, rfl, -⟩ := head_iff.mp hc.2
      have hji : j < i := by
        by_contra hle
        have := position_mono (f := f) (not_lt.mp hle)
        exact hpos (Nat.sub_eq_zero_of_le (by omega))
      exact hfail (happend j hji)
    · intro c hc hpos hread
      obtain ⟨i, rfl, hi⟩ := head_iff.mp hc.2
      rw [read_copyAt] at hread
      refine absurd (congrArg Prod.snd hread)
        (hdata i ⟨?_, fun j hj ↦ (hi j hj).2⟩ (congrArg Prod.fst hread))
      exact Nat.lt_of_sub_ne_zero hpos

/-- A file that no byte is read from. -/
def unreadable : SequentialFile where
  contents := [0]
  read _ _ _ := (.ok, [])
  read_initial := by
    intro i rp n _ _
    exact List.nil_prefix

/-- Two bytes, which are read one at a time. -/
def twoBytes : SequentialFile where
  contents := [1, 2]
  read _ rp n := (.ok, (([1, 2] : List Byte).drop rp).take (min 1 n))
  read_initial := by
    intro i rp n _ _
    exact List.take_prefix_take_left (min_le_right _ _)

/-- A file that cannot be read is copied forever, and the first of two chunks can be lost
without an error. -/
theorem exists_unfaithful_copies :
    ¬ Faithful unreadable {} ∧
      ¬ Faithful twoBytes { append := fun i ↦ if i = 0 then (.ioError "", 0) else (.ok, 0) } := by
  constructor
  · intro h
    obtain ⟨r, hr, -⟩ := h.ends (start unreadable) ⟨rfl, .start⟩ (by decide) rfl
    cases hr
  · intro h
    have hdest := h.complete 3 [2] (by decide)
    cases hdest

/-! ## Files of the filesystem -/

section Zoned

variable {d : Zbd} {f : ZoneFile} {contents : List Byte}

/-- A `ZonedSequentialFile`.  The extents may hold less than the recorded size. -/
def zonedSequentialFile (d : Zbd) (f : ZoneFile) (contents : List Byte)
    (h : (d.contents f.extents).take f.fileSize <+: contents) : SequentialFile where
  contents := contents
  read _ rp n := (positionedRead d f rp n false).swap
  read_initial := by
    intro i rp n hn _
    rw [positionedRead_eq d f (hn.trans_lt (by decide)), Prod.swap_prod_mk, ← List.take_take,
      ← List.drop_take]
    exact List.IsPrefix.take (List.IsPrefix.drop h rp) n

variable {h : (d.contents f.extents).take f.fileSize <+: contents} {i : Nat}

/-- A read gets what is left of the extents, of the file and of the buffer. -/
theorem chunk_zoned (hsize : contents.length = f.fileSize) :
    (chunk (zonedSequentialFile d f contents h) i).1 = .ok ∧
      (chunk (zonedSequentialFile d f contents h) i).2.length =
        min (min (f.fileSize - position (zonedSequentialFile d f contents h) i) buffer_sz)
          (totalLength f.extents - position (zonedSequentialFile d f contents h) i) := by
  have hn : min (contents.length - position (zonedSequentialFile d f contents h) i)
      buffer_sz < 2 ^ 31 :=
    (min_le_right _ _).trans_lt (by decide)
  have hread : chunk (zonedSequentialFile d f contents h) i = _ :=
    congrArg Prod.swap (positionedRead_eq d f hn)
  have hcontents : (zonedSequentialFile d f contents h).contents.length = f.fileSize := hsize
  rw [hread, Prod.swap_prod_mk, List.length_take, List.length_drop, Zbd.length_contents, hcontents]
  exact ⟨rfl, by omega⟩

/-- No read goes beyond the extents. -/
theorem position_zoned_le (hsize : contents.length = f.fileSize) :
    position (zonedSequentialFile d f contents h) i ≤ totalLength f.extents := by
  induction i with
  | zero => exact Nat.zero_le _
  | succ i ih =>
      rw [position_succ, (chunk_zoned hsize).2]
      omega

theorem reads_zoned (hsize : contents.length = f.fileSize)
    (hlost : totalLength f.extents < f.fileSize) : Reads (zonedSequentialFile d f contents h) i :=
  ⟨((position_zoned_le hsize).trans_lt hlost).trans_eq hsize.symm, fun _ _ ↦ (chunk_zoned hsize).1⟩

/-- Every read returns data if and only if the extents hold as much as is recorded. -/
theorem readsData_zoned_iff (hsize : contents.length = f.fileSize) :
    ReadsData (zonedSequentialFile d f contents h) ↔ f.fileSize ≤ totalLength f.extents := by
  constructor
  · intro hdata
    by_contra hlost
    -- each read returns data, so that some read goes beyond the extents
    have hmany : ∀ i, i ≤ position (zonedSequentialFile d f contents h) i := by
      intro i
      induction i with
      | zero => exact le_rfl
      | succ i ih =>
          have hpos :=
            List.length_pos_iff.mpr
              (hdata i (reads_zoned hsize (not_le.mp hlost)) (chunk_zoned hsize).1)
          rw [position_succ]
          omega
    have hle := (hmany (totalLength f.extents + 1)).trans (position_zoned_le hsize)
    omega
  · intro hle i hreads _ hnil
    have hlength := (chunk_zoned (h := h) (i := i) hsize).2
    have hlt : position (zonedSequentialFile d f contents h) i < f.fileSize :=
      hreads.1.trans_eq hsize
    have hbuffer : 0 < buffer_sz := by decide
    rw [hnil, List.length_nil] at hlength
    omega

/-- Otherwise the copy never ends. -/
theorem zenfsToolCopyFile_zoned_none (hsize : contents.length = f.fileSize)
    (hlost : totalLength f.extents < f.fileSize)
    (hopens : o.opens = true) (fuel : Nat) :
    zenfsToolCopyFile (zonedSequentialFile d f contents h) o fuel = none := by
  rw [zenfsToolCopyFile_of_opens hopens]
  refine Loop.run_eq_none (I := fun c ↦ ∃ i, c = copyAt (zonedSequentialFile d f contents h) o i) ?_
    ⟨0, rfl⟩ fuel
  rintro _ ⟨i, rfl⟩
  exact ⟨_, turn_read (reads_zoned hsize hlost) (chunk_zoned hsize).1, i + 1, rfl⟩

end Zoned

end Tool

end ZenFs
