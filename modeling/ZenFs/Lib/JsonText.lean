import ZenFs.Lib.Json
import Mathlib.Data.List.TakeWhile

/-!
# JSON texts

A text is cut into tokens, and these are the tokens of the value that it spells.  A text
without blanks and escapes is the shortest one of its value, and strings that need an escape
cannot be read from a text that has no room for it.
-/

namespace Json

/-- The codes of a string. -/
def code (s : String) : Text := s.toList.map Char.toNat

/-- The code stands for itself in a string: it is no quote, no backslash and no control
character. -/
def plain (n : Nat) : Bool := n != '"'.toNat && n != '\\'.toNat && decide (0x20 ≤ n)

/-- All characters of the string stand for themselves. -/
def plainString (s : String) : Bool := s.toList.all fun c ↦ plain c.toNat

theorem plain_of_mem_code {s : String} (h : plainString s = true) :
    ∀ n ∈ code s, plain n = true := by
  simpa [plainString, code] using h

/-! ## Strings -/

/-- The value of a hexadecimal digit. -/
def hexDigit (c : Char) : Option Nat :=
  if c.isDigit then some (c.toNat - '0'.toNat)
  else if 'a' ≤ c ∧ c ≤ 'f' then some (c.toNat - 'a'.toNat + 10)
  else if 'A' ≤ c ∧ c ≤ 'F' then some (c.toNat - 'A'.toNat + 10)
  else none

def hex4 (a b c d : Char) : Option Nat :=
  [a, b, c, d].foldlM (fun n x ↦ (hexDigit x).map (16 * n + ·)) 0

/-- What a letter behind a backslash stands for. -/
def escaped : Char → Option Nat
  | '"' => some 0x22
  | '\\' => some 0x5C
  | '/' => some 0x2F
  | 'b' => some 0x08
  | 'f' => some 0x0C
  | 'n' => some 0x0A
  | 'r' => some 0x0D
  | 't' => some 0x09
  | _ => none

/-- A string from behind its first quote, and what follows it. -/
def lexString : List Char → Option (Text × List Char)
  | [] => none
  | '"' :: cs => some ([], cs)
  | '\\' :: 'u' :: a :: b :: c :: d :: cs =>
      (hex4 a b c d).bind fun n ↦ (lexString cs).map fun (s, r) ↦ (n :: s, r)
  | '\\' :: e :: cs => (escaped e).bind fun n ↦ (lexString cs).map fun (s, r) ↦ (n :: s, r)
  | c :: cs => if plain c.toNat then (lexString cs).map fun (s, r) ↦ (c.toNat :: s, r) else none

/-- Two codes that are the halves of one character become its code. -/
def joinSurrogates : Text → Text
  | hi :: lo :: s =>
      if (0xD800 ≤ hi ∧ hi < 0xDC00) ∧ 0xDC00 ≤ lo ∧ lo < 0xE000 then
        (0x10000 + (hi - 0xD800) * 0x400 + (lo - 0xDC00)) :: joinSurrogates s
      else hi :: joinSurrogates (lo :: s)
  | s => s

/-! ## Numbers -/

/-- One or more digits, and what follows them. -/
def digits (cs : List Char) : Option (List Char × List Char) :=
  if cs.takeWhile Char.isDigit = [] then none
  else some (cs.takeWhile Char.isDigit, cs.dropWhile Char.isDigit)

/-- Digits that do not begin with a zero, or a zero. -/
def lexWhole (cs : List Char) : Option (Nat × List Char) :=
  (digits cs).bind fun (ds, r) ↦
    if ds.head? = some '0' ∧ 1 < ds.length then none else some (Nat.ofDigitChars 10 ds 0, r)

def lexFraction : List Char → Option (Option (List Char) × List Char)
  | '.' :: cs => (digits cs).map fun (ds, r) ↦ (some ds, r)
  | cs => some (none, cs)

def lexSign : List Char → Bool × List Char
  | '-' :: cs => (true, cs)
  | '+' :: cs => (false, cs)
  | cs => (false, cs)

def lexExponent : List Char → Option (Option (Bool × Nat) × List Char)
  | [] => some (none, [])
  | c :: cs =>
      if c = 'e' ∨ c = 'E' then
        (digits (lexSign cs).2).map fun (ds, r) ↦
          (some ((lexSign cs).1, Nat.ofDigitChars 10 ds 0), r)
      else some (none, c :: cs)

/-- A number without its sign. -/
def lexUnsigned (negative : Bool) (cs : List Char) : Option (Number × List Char) := do
  let (whole, cs) ← lexWhole cs
  let (fraction, cs) ← lexFraction cs
  let (exponent, cs) ← lexExponent cs
  return ({ negative, whole, fraction, exponent }, cs)

def lexNumber : List Char → Option (Number × List Char)
  | '-' :: cs => lexUnsigned true cs
  | cs => lexUnsigned false cs

/-! ## Texts -/

def isBlank (c : Char) : Bool := c == ' ' || c == '\t' || c == '\n' || c == '\r'

/-- The rest of a word. -/
def word (t : Token) (letters : String) (cs : List Char) : Option (Token × List Char) :=
  (cs.dropPrefix? letters.toList).map fun r ↦ (t, r)

/-- The token in front of a text, and what follows it. -/
def lexToken : List Char → Option (Token × List Char)
  | [] => none
  | '\x7b' :: cs => some (.openObj, cs)
  | '\x7d' :: cs => some (.closeObj, cs)
  | '[' :: cs => some (.openArr, cs)
  | ']' :: cs => some (.closeArr, cs)
  | ',' :: cs => some (.comma, cs)
  | ':' :: cs => some (.colon, cs)
  | 'n' :: cs => word .null "ull" cs
  | 't' :: cs => word (.bool true) "rue" cs
  | 'f' :: cs => word (.bool false) "alse" cs
  | '"' :: cs => (lexString cs).map fun (s, r) ↦ (.str (joinSurrogates s), r)
  | cs => (lexNumber cs).map fun (n, r) ↦ (.num n, r)

/-! ## The room that a token takes -/

/-- The characters of a string, with those that need an escape counted twice. -/
def textWidth (s : Text) : Nat := s.length + s.countP fun n ↦ !plain n

/-- The least number of characters that a token takes. -/
def width : Token → Nat
  | .null => 4
  | .bool b => if b then 4 else 5
  | .num n => (Nat.toDigits 10 n.whole).length
  | .str s => textWidth s + 2
  | _ => 1

theorem width_pos (t : Token) : 0 < width t := by
  cases t with
  | bool b => cases b <;> decide
  | num n => exact Nat.length_toDigits_pos
  | _ => exact Nat.zero_lt_succ _

theorem textWidth_cons_le (n : Nat) (s : Text) : textWidth (n :: s) ≤ textWidth s + 2 := by
  unfold textWidth
  rw [List.countP_cons, List.length_cons]
  split <;> omega

theorem textWidth_cons_plain {n : Nat} (h : plain n = true) (s : Text) :
    textWidth (n :: s) = textWidth s + 1 := by
  simp only [textWidth, List.length_cons, List.countP_cons, h]
  simp
  omega

theorem lexString_width {cs r : List Char} {s : Text} (h : lexString cs = some (s, r)) :
    textWidth s + 1 + r.length ≤ cs.length := by
  induction cs using lexString.induct generalizing s with
  | case1 => cases h
  | case2 cs =>
    cases h
    simp [textWidth, Nat.add_comm]
  | case3 a b c d cs ih =>
    simp only [lexString, Option.bind_eq_some_iff, Option.map_eq_some_iff, Prod.exists,
      Prod.mk.injEq] at h
    obtain ⟨n, -, s', r', hs', rfl, rfl⟩ := h
    have hrest := ih hs'
    have hcons := textWidth_cons_le n s'
    simp only [List.length_cons]
    omega
  | case4 e cs hu ih =>
    rw [lexString.eq_4 e cs hu] at h
    simp only [Option.bind_eq_some_iff, Option.map_eq_some_iff, Prod.exists, Prod.mk.injEq] at h
    obtain ⟨n, -, s', r', hs', rfl, rfl⟩ := h
    have hrest := ih hs'
    have hcons := textWidth_cons_le n s'
    simp only [List.length_cons]
    omega
  | case5 c cs hq hu he hplain ih =>
    rw [lexString.eq_5 c cs hq hu he, if_pos hplain] at h
    simp only [Option.map_eq_some_iff, Prod.exists, Prod.mk.injEq] at h
    obtain ⟨s', r', hs', rfl, rfl⟩ := h
    have hrest := ih hs'
    rw [textWidth_cons_plain hplain, List.length_cons]
    omega
  | case6 c cs hq hu he hplain =>
    rw [lexString.eq_5 c cs hq hu he, if_neg hplain] at h
    cases h

theorem joinSurrogates_width (s : Text) : textWidth (joinSurrogates s) ≤ textWidth s := by
  fun_induction joinSurrogates s with
  | case1 hi lo s hhalves ih =>
    have hlarge : plain (0x10000 + (hi - 0xD800) * 0x400 + (lo - 0xDC00)) = true := by
      have hq : '"'.toNat = 34 := rfl
      have hb : '\\'.toNat = 92 := rfl
      simp only [plain, hq, hb, Bool.and_eq_true, bne_iff_ne, decide_eq_true_eq]
      omega
    rw [textWidth_cons_plain hlarge]
    simp only [textWidth, List.length_cons, List.countP_cons] at ih ⊢
    omega
  | case2 hi lo s _ ih =>
    simp only [textWidth, List.length_cons, List.countP_cons] at ih ⊢
    omega
  | case3 s => exact le_rfl

theorem digits_spec {cs ds r : List Char} (h : digits cs = some (ds, r)) :
    ds ++ r = cs ∧ ds ≠ [] ∧ ∀ c ∈ ds, c.isDigit = true := by
  unfold digits at h
  split at h <;> cases h
  next hne => exact ⟨List.takeWhile_append_dropWhile, hne, fun c hc ↦ List.mem_takeWhile_imp hc⟩

theorem ofDigitChars_lt {ds : List Char} (h : ∀ c ∈ ds, c.isDigit = true) :
    Nat.ofDigitChars 10 ds 0 < 10 ^ ds.length := by
  induction ds with
  | nil => simp
  | cons c ds ih =>
    have hrest := ih fun d hd ↦ h d (List.mem_cons_of_mem c hd)
    have hc : c.toNat - '0'.toNat < 10 := by
      have hdigit := h c List.mem_cons_self
      simp only [Char.isDigit, Bool.and_eq_true, decide_eq_true_eq, UInt32.le_iff_toNat_le]
        at hdigit
      have hle : c.toNat ≤ 57 := hdigit.2
      have hzero : '0'.toNat = 48 := rfl
      omega
    rw [Nat.ofDigitChars_cons, Nat.ofDigitChars_eq_ofDigitChars_zero, List.length_cons,
      Nat.pow_succ]
    have hmul := Nat.mul_le_mul_left (10 ^ ds.length) (Nat.le_of_lt_succ hc)
    simp only [Nat.mul_zero, Nat.zero_add]
    omega

theorem lexWhole_width {cs r : List Char} {n : Nat} (h : lexWhole cs = some (n, r)) :
    (Nat.toDigits 10 n).length + r.length ≤ cs.length := by
  simp only [lexWhole, Option.bind_eq_some_iff, Prod.exists] at h
  obtain ⟨ds, r', hds, hn⟩ := h
  obtain ⟨rfl, hne, hdigit⟩ := digits_spec hds
  split at hn <;> cases hn
  have hle : (Nat.toDigits 10 (Nat.ofDigitChars 10 ds 0)).length ≤ ds.length :=
    (Nat.length_toDigits_le_iff (by decide) (List.length_pos_iff.mpr hne)).mpr
      (ofDigitChars_lt hdigit)
  rw [List.length_append]
  omega

theorem lexFraction_le {cs r : List Char} {f : Option (List Char)}
    (h : lexFraction cs = some (f, r)) : r.length ≤ cs.length := by
  unfold lexFraction at h
  split at h
  · next cs =>
    simp only [Option.map_eq_some_iff, Prod.exists, Prod.mk.injEq] at h
    obtain ⟨ds, r', hds, -, rfl⟩ := h
    obtain ⟨rfl, -⟩ := digits_spec hds
    simp
    omega
  · cases h
    exact le_rfl

theorem lexSign_le (cs : List Char) : (lexSign cs).2.length ≤ cs.length := by
  unfold lexSign
  split <;> simp

theorem lexExponent_le {cs r : List Char} {e : Option (Bool × Nat)}
    (h : lexExponent cs = some (e, r)) : r.length ≤ cs.length := by
  cases cs with
  | nil =>
    cases h
    exact le_rfl
  | cons c cs =>
    simp only [lexExponent] at h
    split at h
    · simp only [Option.map_eq_some_iff, Prod.exists, Prod.mk.injEq] at h
      obtain ⟨ds, r', hds, -, rfl⟩ := h
      have hcs := congrArg List.length (digits_spec hds).1
      have hsign := lexSign_le cs
      simp only [List.length_append, List.length_cons] at hcs ⊢
      omega
    · cases h
      exact le_rfl

theorem lexUnsigned_width {b : Bool} {cs r : List Char} {n : Number}
    (h : lexUnsigned b cs = some (n, r)) :
    (Nat.toDigits 10 n.whole).length + r.length ≤ cs.length := by
  simp only [lexUnsigned, Option.bind_eq_bind, Option.bind_eq_some_iff, Prod.exists] at h
  obtain ⟨whole, cs₁, hwhole, fraction, cs₂, hfraction, exponent, cs₃, hexponent, heq⟩ := h
  cases heq
  have h₁ := lexWhole_width hwhole
  have h₂ := lexFraction_le hfraction
  have h₃ := lexExponent_le hexponent
  dsimp only at h₁ ⊢
  omega

theorem lexNumber_width {cs r : List Char} {n : Number} (h : lexNumber cs = some (n, r)) :
    (Nat.toDigits 10 n.whole).length + r.length ≤ cs.length := by
  unfold lexNumber at h
  split at h
  · exact Nat.le_succ_of_le (lexUnsigned_width h)
  · exact lexUnsigned_width h

theorem word_length {t u : Token} {letters : String} {cs r : List Char}
    (h : word t letters cs = some (u, r)) :
    u = t ∧ letters.toList.length + r.length = cs.length := by
  obtain ⟨r', hr', heq⟩ := Option.map_eq_some_iff.mp h
  cases heq
  obtain ⟨p, rfl, hp⟩ := List.dropPrefix?_eq_some_iff.mp hr'
  rw [beq_iff_eq] at hp
  exact ⟨rfl, by rw [hp, List.length_append]⟩

theorem lexToken_width {cs r : List Char} {t : Token} (h : lexToken cs = some (t, r)) :
    width t + r.length ≤ cs.length := by
  unfold lexToken at h
  split at h
  case h_1 => cases h
  case h_8 cs | h_9 cs | h_10 cs =>
    obtain ⟨rfl, hlength⟩ := word_length h
    simp [width] at hlength ⊢
    omega
  case h_11 cs =>
    obtain ⟨⟨s, r'⟩, hs, heq⟩ := Option.map_eq_some_iff.mp h
    cases heq
    have hstring := lexString_width hs
    have hjoin := joinSurrogates_width s
    simp only [width, List.length_cons]
    omega
  case h_12 =>
    obtain ⟨⟨n, r'⟩, hn, heq⟩ := Option.map_eq_some_iff.mp h
    cases heq
    exact lexNumber_width hn
  all_goals
    cases h
    simp [width]
    omega

/-! ## Reading a text -/

/-- The tokens of a text. -/
def lex (text : List Char) : Option (List Token) :=
  match _htext : text.dropWhile isBlank with
  | [] => some []
  | c :: cs =>
      match _htoken : lexToken (c :: cs) with
      | none => none
      | some (t, r) => (lex r).map (t :: ·)
termination_by text.length
decreasing_by
  have hle := lexToken_width _htoken
  have hpos := width_pos t
  have hblank := (List.dropWhile_sublist isBlank (l := text)).length_le
  rw [_htext] at hblank
  omega

/-- The value that a text spells. -/
def read (text : List Char) : Option Json := (lex text).bind parse

theorem lex_blank {text : List Char} (h : text.dropWhile isBlank = []) : lex text = some [] := by
  rw [lex]
  split
  · rfl
  · next heq =>
    rw [h] at heq
    cases heq

theorem lex_eq {text cs : List Char} (h : text.dropWhile isBlank = cs) (hne : cs ≠ []) :
    lex text = (lexToken cs).bind fun (t, r) ↦ (lex r).map (t :: ·) := by
  rw [lex]
  split
  · next heq => exact absurd (h.symm.trans heq) hne
  · next c cs' heq =>
    obtain rfl := h.symm.trans heq
    split
    · next hnone => rw [hnone, Option.bind_none]
    · next hsome => rw [hsome, Option.bind_some]

theorem lex_width {text : List Char} {ts : List Token} (h : lex text = some ts) :
    room width ts ≤ text.length := by
  induction hn : text.length using Nat.strong_induction_on generalizing text ts with
  | _ n ih =>
    have hblank := (List.dropWhile_sublist isBlank (l := text)).length_le
    by_cases hcs : text.dropWhile isBlank = []
    · rw [lex_blank hcs] at h
      cases h
      exact Nat.zero_le _
    · rw [lex_eq rfl hcs] at h
      simp only [Option.bind_eq_some_iff, Option.map_eq_some_iff, Prod.exists] at h
      obtain ⟨t, r, ht, us, hus, rfl⟩ := h
      have hle := lexToken_width ht
      have hpos := width_pos t
      have hrest := ih r.length (by omega) hus rfl
      rw [room_cons]
      omega

/-- A text has the room that its value takes. -/
theorem read_width {text : List Char} {v : Json} (h : read text = some v) :
    weight width v ≤ text.length := by
  obtain ⟨ts, hts, hv⟩ := Option.bind_eq_some_iff.mp h
  obtain rfl := parse_eq_some_iff.mp hv
  exact lex_width hts

/-! ## Texts without blanks and escapes -/

/-- A token as it is spelled without escapes. -/
def spell : Token → List Char
  | .openObj => ['\x7b']
  | .closeObj => ['\x7d']
  | .openArr => ['[']
  | .closeArr => [']']
  | .comma => [',']
  | .colon => [':']
  | .null => "null".toList
  | .bool b => if b then "true".toList else "false".toList
  | .num n => Nat.toDigits 10 n.whole
  | .str s => '"' :: s.map Char.ofNat ++ ['"']

@[simp] theorem spell_openObj : spell .openObj = ['\x7b'] := rfl
@[simp] theorem spell_closeObj : spell .closeObj = ['\x7d'] := rfl
@[simp] theorem spell_openArr : spell .openArr = ['['] := rfl
@[simp] theorem spell_closeArr : spell .closeArr = [']'] := rfl
@[simp] theorem spell_comma : spell .comma = [','] := rfl
@[simp] theorem spell_colon : spell .colon = [':'] := rfl
@[simp] theorem spell_num (n : Number) : spell (.num n) = Nat.toDigits 10 n.whole := rfl

@[simp] theorem spell_code (s : String) : spell (.str (code s)) = '"' :: s.toList ++ ['"'] := by
  simp [spell, code, Function.comp_def]

/-- The token can be spelled so. -/
def Token.Plain : Token → Prop
  | .num n => n = { whole := n.whole }
  | .str s => ∃ cs : List Char, s = cs.map Char.toNat ∧ ∀ c ∈ cs, plain c.toNat = true
  | _ => True

theorem plain_code {s : String} (h : plainString s = true) : (Token.str (code s)).Plain :=
  ⟨s.toList, rfl, fun c hc ↦ plain_of_mem_code h c.toNat (List.mem_map_of_mem hc)⟩

def Token.isNum : Token → Bool
  | .num _ => true
  | _ => false

/-- A number ends in front of the text. -/
def Ends (cs : List Char) : Prop := ∀ c ∈ cs.head?, c.isDigit = false ∧ c ≠ '.' ∧ c ≠ 'e' ∧ c ≠ 'E'

theorem lexString_plain {cs : List Char} (h : ∀ c ∈ cs, plain c.toNat = true) (r : List Char) :
    lexString (cs ++ '"' :: r) = some (cs.map Char.toNat, r) := by
  induction cs with
  | nil => rfl
  | cons c cs ih =>
    have hc := h c List.mem_cons_self
    have hq : c ≠ '"' := by
      rintro rfl
      exact absurd hc (by decide)
    have hb : c ≠ '\\' := by
      rintro rfl
      exact absurd hc (by decide)
    rw [List.cons_append, lexString.eq_5 c _ (fun h ↦ hq h) (fun _ _ _ _ _ h _ ↦ hb h)
      (fun _ _ h _ ↦ hb h), if_pos hc, ih fun d hd ↦ h d (List.mem_cons_of_mem c hd)]
    rfl

theorem joinSurrogates_eq {s : Text} (h : ∀ n ∈ s, n.isValidChar) : joinSurrogates s = s := by
  fun_induction joinSurrogates s with
  | case1 hi lo s hhalves _ =>
    have hvalid := h hi List.mem_cons_self
    unfold Nat.isValidChar at hvalid
    omega
  | case2 hi lo s _ ih => rw [ih fun n hn ↦ h n (List.mem_cons_of_mem hi hn)]
  | case3 s => rfl

theorem digits_append {ds r : List Char} (hne : ds ≠ []) (hds : ∀ c ∈ ds, c.isDigit = true)
    (hr : Ends r) : digits (ds ++ r) = some (ds, r) := by
  have hr' : r.takeWhile Char.isDigit = [] ∧ r.dropWhile Char.isDigit = r := by
    cases r with
    | nil => exact ⟨rfl, rfl⟩
    | cons c r => simp [(hr c rfl).1]
  rw [digits, List.takeWhile_append_of_pos hds, List.dropWhile_append_of_pos hds, hr'.1, hr'.2,
    List.append_nil, if_neg hne]

/-- Only zero begins with a zero. -/
theorem head?_toDigits {n : Nat} (h : (Nat.toDigits 10 n).head? = some '0') :
    (Nat.toDigits 10 n).length ≤ 1 := by
  obtain ⟨ds, hds⟩ := List.head?_eq_some_iff.mp h
  have hdigit : ∀ c ∈ ds, c.isDigit = true := fun c hc ↦
    Nat.isDigit_of_mem_toDigits (by decide) (le_refl 10) (hds ▸ List.mem_cons_of_mem '0' hc)
  have hn : n = Nat.ofDigitChars 10 ds 0 := by
    have hvalue := Nat.ofDigitChars_ten_toDigits (n := n)
    rw [hds, Nat.ofDigitChars_cons] at hvalue
    exact hvalue.symm
  cases ds with
  | nil => rw [hds]; simp
  | cons d ds =>
    have hlt := ofDigitChars_lt hdigit
    rw [← hn] at hlt
    have hle := (Nat.length_toDigits_le_iff (b := 10) (by decide)
      (Nat.zero_lt_succ ds.length)).mpr hlt
    rw [hds] at hle
    exact absurd (Nat.le_of_succ_le_succ hle) (Nat.not_succ_le_self ds.length)

theorem lexUnsigned_toDigits {n : Nat} {r : List Char} (hr : Ends r) :
    lexUnsigned false (Nat.toDigits 10 n ++ r) = some ({ whole := n }, r) := by
  have hdigits := digits_append (Nat.toDigits_ne_nil (b := 10) (n := n))
    (fun c hc ↦ Nat.isDigit_of_mem_toDigits (by decide) (le_refl 10) hc) hr
  have hzero : ¬ ((Nat.toDigits 10 n).head? = some '0' ∧ 1 < (Nat.toDigits 10 n).length) := fun h ↦
    absurd (head?_toDigits h.1) (Nat.not_le_of_lt h.2)
  have hwhole : lexWhole (Nat.toDigits 10 n ++ r) = some (n, r) := by
    simp only [lexWhole, hdigits, Option.bind_some, if_neg hzero, Nat.ofDigitChars_ten_toDigits]
  have hfraction : lexFraction r = some (none, r) := by
    unfold lexFraction
    split
    · exact absurd rfl (hr '.' rfl).2.1
    · rfl
  have hexponent : lexExponent r = some (none, r) := by
    cases r with
    | nil => rfl
    | cons c r => exact if_neg fun h ↦ h.elim (hr c rfl).2.2.1 (hr c rfl).2.2.2
  simp [lexUnsigned, hwhole, hfraction, hexponent]

theorem lexToken_digit {c : Char} (hc : c.isDigit = true) (cs : List Char) :
    lexToken (c :: cs) = (lexUnsigned false (c :: cs)).map fun (n, r) ↦ (.num n, r) := by
  have hnumber : lexNumber (c :: cs) = lexUnsigned false (c :: cs) := by
    unfold lexNumber
    split
    · next heq =>
      cases heq
      exact absurd hc (by decide)
    · rfl
  rw [← hnumber]
  unfold lexToken
  split
  case h_12 => rfl
  case h_1 heq => cases heq
  all_goals
    next heq =>
    cases heq
    exact absurd hc (by decide)

theorem lexToken_spell {t : Token} (ht : t.Plain) {r : List Char} (hr : t.isNum = true → Ends r) :
    lexToken (spell t ++ r) = some (t, r) := by
  cases t with
  | num n =>
    rw [ht, spell]
    have hdigits := lexUnsigned_toDigits (n := n.whole) (hr rfl)
    obtain ⟨c, ds, hds⟩ := List.exists_cons_of_ne_nil (Nat.toDigits_ne_nil (b := 10) (n := n.whole))
    have hc : c.isDigit = true :=
      Nat.isDigit_of_mem_toDigits (b := 10) (n := n.whole) (by decide) (le_refl 10)
        (hds ▸ List.mem_cons_self)
    rw [hds] at hdigits ⊢
    rw [List.cons_append, lexToken_digit hc, ← List.cons_append, hdigits]
    rfl
  | str s =>
    obtain ⟨cs, rfl, hcs⟩ := ht
    have hcodes : (cs.map Char.toNat).map Char.ofNat = cs := by
      simp [Function.comp_def]
    have hvalid : ∀ n ∈ cs.map Char.toNat, n.isValidChar := by
      intro n hn
      obtain ⟨c, -, rfl⟩ := List.mem_map.mp hn
      exact c.valid
    rw [spell, hcodes, List.append_assoc, List.cons_append, lexToken, List.singleton_append,
      lexString_plain hcs]
    simp [joinSurrogates_eq hvalid]
  | bool b => cases b <;> simp [spell, lexToken, word, List.dropPrefix?]
  | null => simp [spell, lexToken, word, List.dropPrefix?]
  | _ => rfl

theorem spell_not_blank (t : Token) (r : List Char) :
    (spell t ++ r).dropWhile isBlank = spell t ++ r := by
  cases t with
  | num n =>
    rw [spell]
    obtain ⟨c, ds, hds⟩ := List.exists_cons_of_ne_nil (Nat.toDigits_ne_nil (b := 10) (n := n.whole))
    have hc : c.isDigit = true :=
      Nat.isDigit_of_mem_toDigits (b := 10) (n := n.whole) (by decide) (le_refl 10)
        (hds ▸ List.mem_cons_self)
    have hblank : isBlank c = false := by
      by_contra h
      simp only [isBlank, Bool.not_eq_false, Bool.or_eq_true, beq_iff_eq] at h
      obtain ((rfl | rfl) | rfl) | rfl := h <;> exact absurd hc (by decide)
    rw [hds, List.cons_append, List.dropWhile_cons_of_neg (by simp [hblank])]
  | bool b => cases b <;> simp [spell, isBlank]
  | _ => simp [spell, isBlank]

theorem spell_ne_nil (t : Token) : spell t ≠ [] := by
  cases t with
  | num n => exact Nat.toDigits_ne_nil
  | bool b => cases b <;> simp [spell]
  | _ => simp [spell]

theorem lex_spell {t : Token} (ht : t.Plain) {r : List Char} (hr : t.isNum = true → Ends r) :
    lex (spell t ++ r) = (lex r).map (t :: ·) := by
  rw [lex_eq (spell_not_blank t r) (by simp [spell_ne_nil]), lexToken_spell ht hr, Option.bind_some]

theorem ends_spell {t : Token} (ht : t.isNum = false) (r : List Char) : Ends (spell t ++ r) := by
  intro c hc
  cases t with
  | num n => cases ht
  | bool b =>
    cases b <;> cases hc <;> decide
  | _ => cases hc; decide

/-- No number stands directly in front of another one. -/
def Separate (t u : Token) : Prop := t.isNum = true → u.isNum = false

theorem lex_flatMap {ts : List Token} (hts : ts.IsChain Separate) (hplain : ∀ t ∈ ts, t.Plain)
    {r : List Char} (hr : Ends r) : lex (ts.flatMap spell ++ r) = (lex r).map (ts ++ ·) := by
  induction ts with
  | nil => simp
  | cons t ts ih =>
    have hends : t.isNum = true → Ends (ts.flatMap spell ++ r) := by
      intro ht
      cases ts with
      | nil => exact hr
      | cons u ts =>
        rw [List.flatMap_cons, List.append_assoc]
        exact ends_spell ((List.isChain_cons_cons.mp hts).1 ht) _
    rw [List.flatMap_cons, List.append_assoc, lex_spell (hplain t List.mem_cons_self) hends,
      ih hts.of_cons fun u hu ↦ hplain u (List.mem_cons_of_mem t hu), Option.map_map]
    rfl

theorem close_num (v : Json) (fs : List Frame) (n : Number) : close v fs (.num n) = none := by
  rcases fs with - | ⟨- | -, fs⟩ <;> rfl

theorem step_num {s s' : State} {n : Number} (h : step s (.num n) = some s') :
    ∃ fs, s' = .after (.num n) fs := by
  cases s with
  | after v fs =>
    rw [step, close_num] at h
    cases h
  | _ => cases h <;> exact ⟨_, rfl⟩

/-- The machine expects something else behind a number. -/
theorem run_separate {s s' : State} {ts : List Token} (h : run s ts = some s') :
    ts.IsChain Separate := by
  induction ts generalizing s with
  | nil => exact .nil
  | cons t ts ih =>
    obtain ⟨s₁, hstep, hrun⟩ := Option.bind_eq_some_iff.mp h
    cases ts with
    | nil => exact .singleton t
    | cons u ts =>
      refine List.isChain_cons_cons.mpr ⟨fun ht ↦ ?_, ih hrun⟩
      obtain ⟨s₂, hnext, -⟩ := Option.bind_eq_some_iff.mp hrun
      cases t <;> cases ht
      obtain ⟨fs, rfl⟩ := step_num hstep
      cases u with
      | num m =>
        rw [step, close_num] at hnext
        cases hnext
      | _ => rfl

/-- The text of a value without blanks and escapes. -/
def compact (v : Json) : List Char := (tokens v).flatMap spell

theorem read_compact {v : Json} (h : ∀ t ∈ tokens v, t.Plain) : read (compact v) = some v := by
  have hrun : run (.value []) (tokens v) = some (.after v []) := by
    simpa [run] using run_tokens v [] []
  have hnil : lex [] = some [] := lex_blank rfl
  have hends : Ends [] := by
    intro c hc
    cases hc
  have hlex := lex_flatMap (run_separate hrun) h hends
  rw [List.append_nil, hnil, Option.map_some, List.append_nil] at hlex
  rw [read, compact, hlex, Option.bind_some, parse_tokens]

theorem length_spell (t : Token) :
    width t = (spell t).length + match t with
      | .str s => s.countP fun n ↦ !plain n
      | _ => 0 := by
  cases t with
  | bool b => cases b <;> simp [width, spell]
  | str s =>
    simp [width, textWidth, spell]
    omega
  | _ => simp [width, spell]

/-- A value that takes the room of `u` is not spelled like `u` unless no string of `u` needs an
escape. -/
theorem plain_of_read_compact {u v : Json} (h : read (compact u) = some v)
    (hle : weight width u ≤ weight width v)
    {s : Text} (hs : .str s ∈ tokens u) : ∀ n ∈ s, plain n = true := by
  have hroom : room width (tokens u) ≤ ((tokens u).flatMap spell).length := hle.trans (read_width h)
  have hshort : ∀ ts : List Token, (ts.flatMap spell).length ≤ room width ts := by
    intro ts
    induction ts with
    | nil => exact le_rfl
    | cons t ts ih =>
      rw [List.flatMap_cons, List.length_append, room_cons, length_spell t]
      omega
  obtain ⟨ts, us, hts⟩ := List.append_of_mem hs
  have h₁ := hshort ts
  have h₂ := hshort us
  have hstr := length_spell (.str s)
  rw [hts] at hroom
  simp only [room_append, room_cons, List.flatMap_append, List.flatMap_cons,
    List.length_append] at hroom
  have hzero : s.countP (fun n ↦ !plain n) = 0 := by
    dsimp only at hstr
    omega
  intro n hn
  simpa using List.countP_eq_zero.mp hzero n hn

theorem close_str (v : Json) (fs : List Frame) (s : Text) : close v fs (.str s) = none := by
  rcases fs with - | ⟨- | -, fs⟩ <;> rfl

/-- No value is spelled by a text in which a string directly follows a value. -/
theorem read_eq_none {ts : List Token} {v : Json} {fs : List Frame} (hplain : ∀ t ∈ ts, t.Plain)
    (hrun : run (.value []) ts = some (.after v fs)) (r : List Char) :
    read (ts.flatMap spell ++ '"' :: r) = none := by
  have hends : Ends ('"' :: r) := by
    intro c hc
    cases hc
    decide
  have hquote : ('"' :: r).dropWhile isBlank = '"' :: r := rfl
  rw [read, lex_flatMap (run_separate hrun) hplain hends,
    lex_eq hquote (List.cons_ne_nil '"' r), lexToken]
  cases lexString r with
  | none => rfl
  | some p =>
    obtain ⟨s, r'⟩ := p
    simp only [Option.map_some, Option.bind_some, Option.map_map]
    cases lex r' with
    | none => rfl
    | some us => simp [parse, run_append, hrun, run_cons, step, close_str]

end Json
