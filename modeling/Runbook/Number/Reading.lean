import Runbook.Number.Binary64

/-!
# Numbers in text

`readInt?` reads an integer of 64 bits and `Binary64.read?` a floating point number. Both read the
whole text or nothing; neither skips blanks.
-/

namespace Runbook

namespace Number

/-- The number that decimal digits stand for. -/
def digitsValue (ds : List Char) : Nat := ds.foldl (fun n d => 10 * n + (d.toNat - '0'.toNat)) 0

/-- A non-empty text of ASCII digits, as a number. -/
def readDigits? (cs : List Char) : Option Nat :=
  if cs ≠ [] ∧ cs.all Char.isDigit then some (digitsValue cs) else none

/-- Takes one sign off the front; a minus counts as negative. -/
def takeSign : List Char → Bool × List Char
  | '+' :: cs => (false, cs)
  | '-' :: cs => (true, cs)
  | cs => (false, cs)

/-- The integer fits 64 bits, one of which is for the sign. -/
def inRange (n : Int) : Bool := -9223372036854775808 ≤ n && n < 9223372036854775808

/-- An integer of 64 bits: an optional sign and digits. -/
def readInt? (cs : List Char) : Option Int :=
  let (negative, ds) := takeSign cs
  (readDigits? ds).bind fun n =>
    let value := Binary64.signed negative n
    if inRange value then some value else none

end Number

namespace Binary64

open Number

/-- The exponent part of a number, which may be missing: `e` or `E`, an optional sign, digits. -/
def readExponent? : List Char → Option Int
  | [] => some 0
  | c :: cs =>
    if c = 'e' ∨ c = 'E' then
      let (negative, ds) := takeSign cs
      (readDigits? ds).map (signed negative)
    else none

/-- A number without its sign: digits with at most one point among them, at least one digit in all,
and perhaps an exponent. -/
def readUnsigned? (negative : Bool) (cs : List Char) : Option Binary64 :=
  let whole := cs.takeWhile Char.isDigit
  let afterWhole := cs.dropWhile Char.isDigit
  let (fraction, rest) := match afterWhole with
    | '.' :: more => (more.takeWhile Char.isDigit, more.dropWhile Char.isDigit)
    | _ => ([], afterWhole)
  if whole = [] ∧ fraction = [] then none
  else
    (readExponent? rest).map fun exponent =>
      ofDecimal negative (digitsValue (whole ++ fraction)) (exponent - fraction.length)

/-- The number that a text names: a decimal, or an infinity or NaN in letters of either case. -/
def read? (cs : List Char) : Option Binary64 :=
  let (negative, rest) := takeSign cs
  match String.ofList (rest.map Char.toLower) with
  | "inf" | "infinity" => some (infinity negative)
  | "nan" => some nan
  | _ => readUnsigned? negative rest

end Binary64

end Runbook
