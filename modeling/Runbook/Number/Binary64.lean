/-!
# Binary floating point numbers of 64 bits

A number is its bit pattern. Every finite one is a whole number of units of 2^-1074, so `units`
turns questions about finite values into questions about natural numbers: `toInt?` is the exact
integer that a pattern denotes, and `ofRatio` is the pattern nearest to a ratio of natural numbers.
-/

namespace Runbook

/-! ## Powers -/

namespace Number

/-- A power of two. -/
def pow2 (n : Nat) : Nat := Nat.pow 2 n

/-- A power of ten. -/
def pow10 (n : Nat) : Nat := Nat.pow 10 n

theorem pow2_add (m n : Nat) : pow2 (m + n) = pow2 m * pow2 n := Nat.pow_add 2 m n

theorem pow2_pos (n : Nat) : 0 < pow2 n := Nat.pow_pos (by decide)

end Number

open Number

/-- A floating point number, given by its bits. -/
structure Binary64 where
  bits : UInt64
deriving DecidableEq, Repr

namespace Binary64

/-! ## Fields -/

/-- The sign bit is set, as it can be for a zero as well. -/
def isNegative (x : Binary64) : Bool := x.bits.toNat / pow2 63 = 1

/-- The eleven bits of the exponent field. -/
def exponentField (x : Binary64) : Nat := x.bits.toNat / pow2 52 % pow2 11

/-- The fifty-two bits of the fraction field. -/
def fractionField (x : Binary64) : Nat := x.bits.toNat % pow2 52

/-- The number is finite; what is not a number is not. -/
def isFinite (x : Binary64) : Bool := x.exponentField ≠ 2047

/-- The pattern stands for no number. -/
def isNaN (x : Binary64) : Bool := x.exponentField = 2047 && x.fractionField ≠ 0

/-- A finite number is its significand times two to the `shift`, in units of 2^-1074. -/
def significand (x : Binary64) : Nat :=
  if x.exponentField = 0 then x.fractionField else pow2 52 + x.fractionField

/-- The power of two that scales the significand. -/
def shift (x : Binary64) : Nat := x.exponentField - 1

/-- The magnitude of a finite number in units of 2^-1074. -/
def units (x : Binary64) : Nat := x.significand * pow2 x.shift

/-- The number of units in one. -/
def unit : Nat := pow2 1074

/-- The integer with the given magnitude and sign. -/
def signed (negative : Bool) (n : Nat) : Int := if negative then -(n : Int) else n

/-- The exact integer that a number denotes, if it is finite and has no fraction. -/
def toInt? (x : Binary64) : Option Int :=
  if x.isFinite && x.units % unit = 0 then some (signed x.isNegative (x.units / unit)) else none

/-! ## Rounding -/

/-- The quotient rounded to the nearest natural number, a tie to the even neighbour. -/
def roundDiv (num den : Nat) : Nat :=
  let q := num / den
  let r := num % den
  if 2 * r < den then q
  else if den < 2 * r then q + 1
  else if q % 2 = 0 then q else q + 1

/-- The bits of infinity without a sign. -/
def infinityBits : Nat := 2047 * pow2 52

/-- The pattern with the given magnitude bits and sign. -/
def ofMagnitude (negative : Bool) (bits : Nat) : Binary64 :=
  ⟨UInt64.ofNat (if negative then pow2 63 + bits else bits)⟩

/-- Infinity with a sign. -/
def infinity (negative : Bool) : Binary64 := ofMagnitude negative infinityBits

/-- Zero with a sign. -/
def zero (negative : Bool) : Binary64 := ofMagnitude negative 0

/-- Not a number, in its plain form. -/
def nan : Binary64 := ⟨0x7FF8000000000000⟩

/-- The bits of the magnitude nearest to a ratio. A rounded significand of `2 ^ 53` carries into the
exponent field by the addition, and what is beyond the largest finite number is infinity. -/
def magnitudeBits (num den : Nat) : Nat :=
  let scaled := num * unit
  let shift := (scaled / den).log2 - 52
  min (shift * pow2 52 + roundDiv scaled (den * pow2 shift)) infinityBits

/-- The number nearest to a ratio, a tie to the even neighbour. -/
def ofRatio (negative : Bool) (num den : Nat) : Binary64 :=
  ofMagnitude negative (magnitudeBits num den)

/-- The number nearest to an integer, a tie to the even neighbour. -/
def ofInt (n : Int) : Binary64 := ofRatio (n < 0) n.natAbs 1

/-- The number nearest to `digits * 10 ^ exponent`. An exponent that takes the value out of the
range of finite numbers, or below half of the least unit, decides without the power. -/
def ofDecimal (negative : Bool) (digits : Nat) (exponent : Int) : Binary64 :=
  let size : Int := (Nat.toDigits 10 digits).length
  if digits = 0 then zero negative
  else if 310 < exponent + size then infinity negative
  else if exponent + size < -330 then zero negative
  else ofRatio negative (digits * pow10 exponent.toNat) (pow10 (-exponent).toNat)

end Binary64

end Runbook
