/-! The shortest decimal that reads back as a given double.

A finite double is `significand * 2 ^ exponent`. The decimals that round to it form an interval
around it, with both ends exactly when the significand is even. For one digit, two digits and so
on, the two neighbours of the value on that decimal grid are tested in exact natural arithmetic;
the first grid with a neighbour in the interval wins.
-/

namespace Lox.Number

-----
-- Binary and decimal values

/-- The magnitude `significand * 2 ^ exponent` of a finite double. -/
structure Binary where
  significand : Nat
  exponent : Int
  /-- The gap to the value below is half the gap to the value above. -/
  narrowBelow : Bool

/-- Reads the magnitude off the bits of a finite double. Bits of zero exponent are subnormal. -/
def Binary.ofBits (bits : UInt64) : Binary :=
  let scale := ((bits >>> 52) &&& 0x7FF).toNat
  let fraction := (bits &&& 0xFFFFFFFFFFFFF).toNat
  if scale = 0 then
    ⟨fraction, -1074, false⟩
  else
    ⟨(1 <<< 52) + fraction, (scale : Int) - 1075, fraction = 0 && 1 < scale⟩

/-- The decimal `coefficient * 10 ^ exponent`. -/
structure Decimal where
  coefficient : Nat
  exponent : Int
deriving DecidableEq, Repr

def powerOfTen (exponent : Nat) : Nat :=
  Nat.pow 10 exponent

/-- Compares `a * 10 ^ i` with `n * 2 ^ j` by cross-multiplying naturals. -/
def compareScaled (a : Nat) (i : Int) (n : Nat) (j : Int) : Ordering :=
  compare ((a * powerOfTen i.toNat) <<< (-j).toNat) ((n <<< j.toNat) * powerOfTen (-i).toNat)

-----
-- The rounding interval

/-- The decimal lies in the interval of reals that round to the value, ties going to even. -/
def Binary.readsBack (value : Binary) (decimal : Decimal) : Bool :=
  let quarters := 4 * value.significand
  let below := if value.narrowBelow then quarters - 1 else quarters - 2
  let inclusive := value.significand % 2 = 0
  let low := compareScaled decimal.coefficient decimal.exponent below (value.exponent - 2)
  let high := compareScaled decimal.coefficient decimal.exponent (quarters + 2) (value.exponent - 2)
  (low == .gt || (inclusive && low == .eq)) && (high == .lt || (inclusive && high == .eq))

-----
-- Selection

/-- The least power of ten above a nonzero value. The binary logarithm leaves three candidates. -/
def Binary.decimalScale (value : Binary) : Int :=
  let estimate := ((value.significand.log2 : Int) + value.exponent) * 30103 / 100000
  let above (k : Int) := compareScaled 1 k value.significand value.exponent == .gt
  if above estimate then estimate
  else if above (estimate + 1) then estimate + 1
  else estimate + 2

/-- The neighbour of the value on the grid `10 ^ exponent` that reads back, the closer of two. -/
def Binary.onGrid? (value : Binary) (exponent : Int) : Option Decimal :=
  let num := (value.significand <<< value.exponent.toNat) * powerOfTen (-exponent).toNat
  let den := powerOfTen exponent.toNat <<< (-value.exponent).toNat
  let lower := num / den
  let down : Decimal := ⟨lower, exponent⟩
  let up : Decimal := ⟨lower + 1, exponent⟩
  match value.readsBack down, value.readsBack up with
  | false, false => none
  | true, false => some down
  | false, true => some up
  | true, true =>
      match compare (2 * num) ((2 * lower + 1) * den) with
      | .lt => some down
      | .gt => some up
      | .eq => some (if lower % 2 = 0 then down else up)

/-- The value itself as a decimal. -/
def Binary.exact (value : Binary) : Decimal :=
  if value.exponent < 0 then
    ⟨value.significand * Nat.pow 5 (-value.exponent).toNat, value.exponent⟩
  else
    ⟨value.significand <<< value.exponent.toNat, 0⟩

/-- The decimal of fewest digits that reads back as the nonzero value. -/
def Binary.shortest (value : Binary) : Decimal :=
  let scale := value.decimalScale
  let grids := (List.range 17).map fun (extra : Nat) => scale - (1 + extra : Int)
  (grids.findSome? value.onGrid?).getD value.exact

end Lox.Number
