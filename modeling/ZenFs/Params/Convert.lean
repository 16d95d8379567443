import ZenFs.Basic
import Mathlib.Algebra.Order.Field.Basic
import Mathlib.Data.Int.Log
import Mathlib.Data.Rat.Floor

/-!
# Numbers in a parameter file

`std::stoi`, `std::stoul` and `std::stod` take the longest numeral that a word begins with
and ignore what is behind it.  They throw `std::invalid_argument` where there is none, and
`std::out_of_range` where the number is not one of the type.  The locale is that of C.
-/

namespace ZenFs

namespace Params

/-- A `std::string`. -/
abbrev Text := List Char

/-- What a conversion throws. -/
inductive ConvError where
  | invalidArgument
  | outOfRange
deriving DecidableEq, Repr

/-- `isspace`. -/
def isSpace (c : Char) : Bool :=
  c == ' ' || c == '\t' || c == '\n' || c == '\x0b' || c == '\x0c' || c == '\r'

/-- Whether a minus is in front, and what is behind the sign. -/
def sign : Text → Bool × Text
  | '-' :: s => (true, s)
  | '+' :: s => (false, s)
  | s => (false, s)

/-- The digit that a character is. -/
def digitVal (c : Char) : Nat :=
  if c.isDigit then c.toNat - '0'.toNat else c.toLower.toNat - 'a'.toNat + 10

/-- The number that digits are. -/
def valueOf (base : Nat) (digits : Text) : Nat := digits.foldl (fun n c ↦ base * n + digitVal c) 0

/-- Decimal digits, with a sign or without. -/
def digits? (s : Text) : Option Int :=
  let (neg, s) := sign s
  let digits := s.takeWhile Char.isDigit
  if digits = [] then none else some (if neg then -(valueOf 10 digits : Int) else valueOf 10 digits)

/-- The numeral that `strtol` and `strtoul` find at base ten. -/
def decimal? (s : Text) : Option Int := digits? (s.dropWhile isSpace)

/-- The value of a numeral, if there is one and it is a number of the type. -/
def convert {α β : Type} (numeral : Option α) (fits : α → Prop) [DecidablePred fits]
    (value : α → β) : Except ConvError β :=
  match numeral with
  | none => .error .invalidArgument
  | some x => if fits x then .ok (value x) else .error .outOfRange

theorem convert_ok_iff {α β : Type} {numeral : Option α} {fits : α → Prop} [DecidablePred fits]
    {value : α → β} : (∃ y, convert numeral fits value = .ok y) ↔ ∃ x ∈ numeral, fits x := by
  unfold convert
  split
  · simp
  · next x =>
      split <;> simp [*]

/-- The range of `int`. -/
def FitsInt (n : Int) : Prop := -2 ^ 31 ≤ n ∧ n < 2 ^ 31

/-- The range of `strtoul`, which takes negative numbers modulo `2 ^ 64`. -/
def FitsULong (n : Int) : Prop := n.natAbs < 2 ^ 64

instance : DecidablePred FitsInt := fun _ ↦ inferInstanceAs (Decidable (_ ∧ _))

instance : DecidablePred FitsULong := fun _ ↦ inferInstanceAs (Decidable (_ < _))

/-- `std::stoi`. -/
def stoi (s : Text) : Except ConvError Int := convert (decimal? s) FitsInt id

/-- `std::stoul`. -/
def stoul (s : Text) : Except ConvError UInt64 := convert (decimal? s) FitsULong UInt64.ofInt

/-! ## Floating-point numbers -/

/-- A `double`, of whose zeros there is one. -/
inductive Double where
  | finite (q : ℚ)
  | inf (neg : Bool)
  | nan
deriving DecidableEq, Repr

/-- The nearest integer, and the even one of two. -/
def roundEven (q : ℚ) : Int :=
  if q - ⌊q⌋ < 1 / 2 then ⌊q⌋
  else if 1 / 2 < q - ⌊q⌋ then ⌊q⌋ + 1
  else if ⌊q⌋ % 2 = 0 then ⌊q⌋ else ⌊q⌋ + 1

/-- The nearest number of 53 binary digits, the last of which counts at least `2 ^ emin`. -/
def roundTo (emin : Int) (q : ℚ) : ℚ :=
  let ulp : ℚ := 2 ^ max (Int.log 2 |q| - 52) emin
  roundEven (q / ulp) * ulp

namespace Double

/-- The nearest `double`. -/
def nearest : Double → Double
  | finite q => finite (roundTo (-1074) q)
  | x => x

/-- Rounding neither overflows nor loses digits of a number that is too small for 53 of them,
where `strtod` sets `ERANGE`. -/
def Fits : Double → Prop
  | finite q => |roundTo (-1074) q| < 2 ^ 1024 ∧
      (2 ^ (-1022 : Int) ≤ |roundTo (Int.log 2 |q| - 52) q| ∨ roundTo (-1074) q = q)
  | _ => True

instance : DecidablePred Fits := fun x ↦
  match x with
  | finite _ => inferInstanceAs (Decidable (_ ∧ _))
  | inf _ => inferInstanceAs (Decidable True)
  | nan => inferInstanceAs (Decidable True)

/-- The comparison `q ≤ x`. -/
def ge (x : Double) (q : ℚ) : Bool :=
  match x with
  | finite r => decide (q ≤ r)
  | inf neg => !neg
  | nan => false

/-- The comparison `x ≤ q`. -/
def le (x : Double) (q : ℚ) : Bool :=
  match x with
  | finite r => decide (r ≤ q)
  | inf neg => neg
  | nan => false

end Double

/-- Digits with a point among them or without, and what is behind them. -/
def fraction? (base : Nat) (isDigit : Char → Bool) (s : Text) : Option (ℚ × Text) :=
  let whole := s.takeWhile isDigit
  let (part, rest) :=
    match s.dropWhile isDigit with
    | '.' :: s => (s.takeWhile isDigit, s.dropWhile isDigit)
    | s => ([], s)
  if whole ++ part = [] then none
  else some (valueOf base (whole ++ part) / (base : ℚ) ^ part.length, rest)

/-- The exponent behind a mark, zero if there is none. -/
def exponent (mark : Char) : Text → Int
  | c :: s => if c.toLower = mark then (digits? s).getD 0 else 0
  | [] => 0

/-- A hexadecimal numeral. -/
def hexadecimal? : Text → Option ℚ
  | '0' :: x :: s =>
      if x.toLower = 'x' then
        (fraction? 16 (fun c ↦ c.isDigit || ('a' ≤ c.toLower && c.toLower ≤ 'f')) s).map
          fun (m, rest) ↦ m * 2 ^ exponent 'p' rest
      else none
  | _ => none

/-- A number without a sign. -/
def magnitude? (s : Text) : Option ℚ :=
  (hexadecimal? s).or ((fraction? 10 Char.isDigit s).map fun (m, rest) ↦ m * 10 ^ exponent 'e' rest)

/-- What `strtod` finds, before it is rounded. -/
def floating? (s : Text) : Option Double :=
  let (neg, s) := sign (s.dropWhile isSpace)
  if ['i', 'n', 'f'].isPrefixOf (s.map Char.toLower) then some (.inf neg)
  else if ['n', 'a', 'n'].isPrefixOf (s.map Char.toLower) then some .nan
  else (magnitude? s).map fun q ↦ .finite (if neg then -q else q)

/-- `std::stod`. -/
def stod (s : Text) : Except ConvError Double := convert (floating? s) Double.Fits Double.nearest

end Params

end ZenFs
