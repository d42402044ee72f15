/-!
# Padding to a width

A text may be cut to a number of characters and is then filled up to a width. A text that is wider
than the field stays whole.
-/

namespace Runbook

namespace Text

/-- Where a text stands in a wider field; an odd fill leaves its extra character on the right. -/
inductive Side where
  | left
  | right
  | centre
deriving DecidableEq, Repr

/-- The text filled up to the width with the fill character. -/
def pad (side : Side) (fill : Char) (width : Nat) (s : String) : String :=
  let gap := width - s.length
  let before := match side with
    | .left => 0
    | .right => gap
    | .centre => gap / 2
  String.ofList (List.replicate before fill ++ s.toList ++ List.replicate (gap - before) fill)

/-- The first characters of a text; without a limit, all of them. -/
def cut (limit : Option Nat) (s : String) : String :=
  match limit with
  | none => s
  | some n => String.ofList (s.toList.take n)

end Text

end Runbook
