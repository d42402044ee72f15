import Runbook.Number.Binary64

/-!
# The cast to integers of 64 bits

`whole?` takes a floating point number for an integer with the operations that processors have for
such numbers: the fraction is the difference between the number and its whole part and is compared
with zero, the number is compared with the two limits of the range, and it is cast. None of these
is exact in itself. The difference is rounded, comparisons are false of what is not a number, and
the cast takes a number out of range for the limit next to it.
-/

namespace Runbook

open Number

namespace Binary64

/-! ## Whole parts -/

/-- The bits without the sign. -/
def magnitude (x : Binary64) : Nat := x.bits.toNat % pow2 63

/-- The whole part: the bits of the significand that stand for less than one are cleared. -/
def trunc (x : Binary64) : Binary64 :=
  if x.exponentField < 1023 then zero x.isNegative
  else if 1075 ≤ x.exponentField then x
  else
    let low := pow2 (1075 - x.exponentField)
    ofMagnitude x.isNegative (x.magnitude / low * low)

/-- A finite number in units of 2^-1074. -/
def signedUnits (x : Binary64) : Int := signed x.isNegative x.units

/-- The difference, rounded to the nearest. Equal infinities have none, and a difference of zero
has a sign only between zeros. -/
def sub (x y : Binary64) : Binary64 :=
  if x.isNaN || y.isNaN then nan
  else if !x.isFinite then
    if !y.isFinite && x.isNegative == y.isNegative then nan else x
  else if !y.isFinite then infinity (!y.isNegative)
  else
    let difference := x.signedUnits - y.signedUnits
    if difference = 0 then zero (x.isNegative && !y.isNegative)
    else ofRatio (difference < 0) difference.natAbs unit

/-- The fraction, which has the sign of the number. -/
def fract (x : Binary64) : Binary64 := x.sub x.trunc

/-! ## Comparisons -/

/-- The place in the order of numbers; the two zeros share theirs. -/
def rank (x : Binary64) : Int := signed x.isNegative x.magnitude

/-- The numbers are equal; what is not a number equals nothing, itself included. -/
def equal (x y : Binary64) : Bool := !x.isNaN && !y.isNaN && x.rank = y.rank

/-- The one number is below the other, and both are numbers. -/
def less (x y : Binary64) : Bool := !x.isNaN && !y.isNaN && x.rank < y.rank

/-- The one number is not above the other, and both are numbers. -/
def lessOrEqual (x y : Binary64) : Bool := !x.isNaN && !y.isNaN && x.rank ≤ y.rank

/-! ## The cast -/

/-- The integer of 64 bits that is nearest to an integer. -/
def clamp (n : Int) : Int :=
  if n < -9223372036854775808 then -9223372036854775808
  else if 9223372036854775807 < n then 9223372036854775807
  else n

/-- The cast: towards zero, to the next limit from out of range, and to zero from what is not a
number. -/
def toInt64 (x : Binary64) : Int :=
  if x.isNaN then 0
  else if !x.isFinite then if x.isNegative then -9223372036854775808 else 9223372036854775807
  else clamp (signed x.isNegative (x.units / unit))

/-- The number 2^63, or its negative. -/
def limit (negative : Bool) : Binary64 := ofMagnitude negative 0x43E0000000000000

/-- The number as an integer of 64 bits, if it has no fraction and is in range. -/
def whole? (x : Binary64) : Option Int :=
  if x.fract.equal (zero false) && ((limit true).lessOrEqual x && x.less (limit false)) then
    some x.toInt64
  else none

end Binary64

end Runbook
