import Runbook.Number.Binary64

/-!
# The fewest digits that name a number

The reals that round to a finite number form an interval around it, and `nearest?` finds the
decimals of a given exponent in it. `shortest` takes the largest exponent that has one: these are
the fewest digits that read back. They are written out in full, without an exponent.
-/

namespace Runbook

/-- The non-negative decimal `digits * 10 ^ exponent`. -/
structure Decimal where
  digits : Nat
  exponent : Int
deriving DecidableEq, Repr

open Number

namespace Decimal

/-- A decimal in quarters of 2^-1074, over the denominator `10 ^ (-exponent)`. -/
def quarters (d : Decimal) : Nat := 4 * Binary64.unit * (d.digits * pow10 d.exponent.toNat)

/-- The denominator of `quarters`. -/
def denominator (d : Decimal) : Nat := pow10 (-d.exponent).toNat

/-- The decimal in positional notation. -/
def plain (d : Decimal) : String :=
  let ds := Nat.toDigits 10 d.digits
  match d.exponent with
  | .ofNat n => String.ofList (ds ++ List.replicate n '0')
  | .negSucc n =>
    let places := n + 1
    let ds := List.replicate (places + 1 - ds.length) '0' ++ ds
    let whole := ds.length - places
    String.ofList (ds.take whole ++ '.' :: ds.drop whole)

end Decimal

namespace Binary64

/-- Half the distance to the neighbour above, in quarters of a unit. -/
def marginAbove (x : Binary64) : Nat := 2 * pow2 x.shift

/-- Half the distance to the neighbour below, in quarters of a unit; at a power of two the numbers
below lie twice as close as those above. -/
def marginBelow (x : Binary64) : Nat :=
  if x.fractionField = 0 ∧ 1 < x.exponentField then pow2 x.shift else 2 * pow2 x.shift

/-- The decimal rounds to the magnitude of the finite number: it lies between the points halfway to
the two neighbours, which themselves count exactly when the significand is even. -/
def readsBack (x : Binary64) (d : Decimal) : Bool :=
  let low := (4 * x.units - x.marginBelow) * d.denominator
  let high := (4 * x.units + x.marginAbove) * d.denominator
  let n := d.quarters
  if x.significand % 2 = 0 then low ≤ n && n ≤ high else low < n && n < high

/-- The decimal with the given exponent that reads back and is nearest to the magnitude, of two
equally near ones the larger. -/
def nearest? (x : Binary64) (exponent : Int) : Option Decimal :=
  let grid := unit * pow10 exponent.toNat
  let scaled := x.units * pow10 (-exponent).toNat
  let below : Decimal := ⟨scaled / grid, exponent⟩
  let above : Decimal := ⟨scaled / grid + 1, exponent⟩
  match x.readsBack below, x.readsBack above with
  | true, true => some (if 2 * (scaled % grid) < grid then below else above)
  | true, false => some below
  | false, true => some above
  | false, false => none

/-- The exponents that a shortest decimal of a finite number may have, from the largest. -/
def exponents : List Int := (List.range 640).map fun (i : Nat) => 310 - (i : Int)

/-- The magnitude of a finite number with the fewest digits that read back. -/
def shortest (x : Binary64) : Decimal :=
  if x.units = 0 then ⟨0, 0⟩
  else (exponents.findSome? x.nearest?).getD ⟨x.units * Nat.pow 5 1074, -1074⟩

/-- The number in positional notation with the fewest digits that read back. -/
def plain (x : Binary64) : String :=
  if x.isNaN then "NaN"
  else
    let mark := if x.isNegative then "-" else ""
    if x.isFinite then mark ++ x.shortest.plain else mark ++ "inf"

end Binary64

end Runbook
