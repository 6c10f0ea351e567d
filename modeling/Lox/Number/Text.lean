import Lox.Number.Shortest

/-! The text of a double, and doubles read from text.

Numbers are written with the fewest digits that read back: positionally, with at least one digit
after the point, when the leading digit stands for `10 ^ e` with `-4 ≤ e < 16`, and otherwise
with an exponent of a sign and at least two digits.
-/

namespace Lox.Number

-----
-- Writing

/-- The first exponent of the leading digit that is written positionally. -/
def positionalFrom : Int := -4

/-- The first exponent of the leading digit that is too large to be written positionally. -/
def positionalBelow : Int := 16

def zeros (count : Nat) : List Char :=
  List.replicate count '0'

def dropTrailingZeros (digits : List Char) : List Char :=
  (digits.reverse.dropWhile (· == '0')).reverse

/-- An exponent has a sign and at least two digits. -/
def exponentText (exponent : Int) : List Char :=
  let digits := Nat.toDigits 10 exponent.natAbs
  (if exponent < 0 then '-' else '+') :: (zeros (2 - digits.length) ++ digits)

/-- Places the point among the significant digits, or writes an exponent behind them. -/
def placePoint (digits : List Char) (leading : Int) : List Char :=
  if positionalFrom ≤ leading ∧ leading < positionalBelow then
    if leading < 0 then
      '0' :: '.' :: (zeros (leading.natAbs - 1) ++ digits)
    else
      let whole := leading.toNat + 1
      let padded := digits ++ zeros (whole + 1 - digits.length)
      padded.take whole ++ '.' :: padded.drop whole
  else
    let mantissa :=
      match digits with
      | first :: second :: rest => first :: '.' :: second :: rest
      | single => single
    mantissa ++ 'e' :: exponentText leading

def Decimal.text (decimal : Decimal) : List Char :=
  let digits := Nat.toDigits 10 decimal.coefficient
  placePoint (dropTrailingZeros digits) (digits.length + decimal.exponent - 1)

/-- The sign is the top bit, so that negative zero keeps it. -/
def isNegative (number : Float) : Bool :=
  number.toBits >>> 63 == 1

def magnitudeText (number : Float) : List Char :=
  if number == 0.0 then
    ['0', '.', '0']
  else if number.isInf then
    ['i', 'n', 'f']
  else
    (Binary.ofBits number.toBits).shortest.text

/-- Not-a-number is written without a sign. -/
def text (number : Float) : String :=
  if number.isNaN then
    "nan"
  else if isNegative number then
    String.ofList ('-' :: magnitudeText number)
  else
    String.ofList (magnitudeText number)

-----
-- Reading

def isDigit (c : Char) : Bool :=
  '0' ≤ c && c ≤ '9'

/-- The natural number that a run of digits denotes. -/
def natOfDigits (digits : List Char) : Nat :=
  digits.foldl (fun value digit => 10 * value + (digit.toNat - '0'.toNat)) 0

/-- The double nearest to `whole.fraction * 10 ^ exponent`, ties going to even. -/
def ofDecimal (whole fraction : List Char) (exponent : Int) : Float :=
  let scale := exponent - fraction.length
  Float.ofScientific (natOfDigits (whole ++ fraction)) (scale < 0) scale.natAbs

/-- One digit or more. -/
def natural? (digits : List Char) : Option Nat :=
  if !digits.isEmpty && digits.all isDigit then some (natOfDigits digits) else none

/-- The digits behind an exponent mark, with their optional sign. -/
def exponent? : List Char → Option Int
  | '-' :: digits => (natural? digits).map fun value => -(value : Int)
  | '+' :: digits => (natural? digits).map fun value => (value : Int)
  | digits => (natural? digits).map fun value => (value : Int)

/-- A magnitude is digits, an optional fraction and an optional exponent. -/
def magnitude? (cs : List Char) : Option Float :=
  let whole := cs.takeWhile isDigit
  let (fraction, rest) :=
    match cs.dropWhile isDigit with
    | '.' :: rest => (rest.takeWhile isDigit, rest.dropWhile isDigit)
    | rest => ([], rest)
  if whole.isEmpty then
    none
  else
    match rest with
    | [] => some (ofDecimal whole fraction 0)
    | 'e' :: rest => (exponent? rest).map (ofDecimal whole fraction)
    | _ => none

def unsigned? : List Char → Option Float
  | ['i', 'n', 'f'] => some (1.0 / 0.0)
  | ['n', 'a', 'n'] => some (0.0 / 0.0)
  | cs => magnitude? cs

/-- Reads what `text` writes, and any other decimal of the same form. -/
def ofText? (text : String) : Option Float :=
  match text.toList with
  | '-' :: cs => (unsigned? cs).map fun number => -number
  | cs => unsigned? cs

end Lox.Number
