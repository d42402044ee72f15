import Runbook.Number.Reading
import Runbook.Number.Shortest
import Runbook.Text.Blank
import Runbook.Text.Quoted

/-!
# Values of variables

A variable holds an integer, a floating point number, a truth value or a text. Every value has a
text. Reading a value as another kind is forgiving: it gives nothing when the value does not stand
for one of that kind.
-/

namespace Runbook

/-- What a variable can hold. -/
inductive Value where
  | int (n : Int)
  | float (x : Binary64)
  | bool (b : Bool)
  | text (s : String)
deriving DecidableEq, Repr

namespace Binary64

/-- The text of a number as a value: a whole number below 10^15 keeps one zero after the point, any
other has the fewest digits that read back. -/
def valueText (x : Binary64) : String :=
  let mark := if x.isNegative then "-" else ""
  match x.toInt? with
  | some n => if n.natAbs < 1000000000000000 then mark ++ toString n.natAbs ++ ".0" else x.plain
  | none => x.plain

end Binary64

namespace Value

/-- The value as a text. There is one for every value, and it is what scripts see of it. -/
def toText : Value → String
  | .int n => toString n
  | .float x => x.valueText
  | .bool b => if b then "true" else "false"
  | .text s => s

/-- The exact integer of a floating point number, if it is one of 64 bits. -/
def wholeFloat? (x : Binary64) : Option Int :=
  x.toInt?.filter Number.inRange

/-- The value as an integer of 64 bits. A text is read without its outer blanks, as an integer or
else as a floating point number without a fraction. -/
def toInt? : Value → Option Int
  | .int n => some n
  | .float x => wholeFloat? x
  | .bool b => some (if b then 1 else 0)
  | .text s =>
    let cs := Text.trim s.toList
    match Number.readInt? cs with
    | some n => some n
    | none => (Binary64.read? cs).bind wholeFloat?

/-- The value as a natural number: an integer that is not negative. -/
def toNat? (v : Value) : Option Nat :=
  v.toInt?.bind fun n => if 0 ≤ n then some n.toNat else none

/-- The value as a floating point number; an integer is rounded to the nearest. -/
def toFloat? : Value → Option Binary64
  | .int n => some (Binary64.ofInt n)
  | .float x => some x
  | .bool _ => none
  | .text s => Binary64.read? (Text.trim s.toList)

/-- The value as a truth value; the words for yes and no may be in letters of either case. -/
def toBool? : Value → Option Bool
  | .bool b => some b
  | .int n => some (n ≠ 0)
  | .float _ => none
  | .text s =>
    match String.ofList ((Text.trim s.toList).map Char.toLower) with
    | "true" | "yes" | "on" | "1" => some true
    | "false" | "no" | "off" | "0" => some false
    | _ => none

/-- The value as JSON; a floating point number that is not finite is null. -/
def toJson : Value → String
  | .int n => toString n
  | .float x => if x.isFinite then x.plain else "null"
  | .bool b => if b then "true" else "false"
  | .text s => Text.json s

end Value

end Runbook
