/-!
# Locations in a text

A position counts the UTF-8 bytes before it; a location is a line and a column, both from 1, and
columns count characters. A line feed, a carriage return, and a carriage return with its line feed
each end one line.
-/

namespace Runbook

namespace Text

/-- The number of bytes of the characters in UTF-8. -/
def byteLength : List Char → Nat
  | [] => 0
  | c :: cs => c.utf8Size + byteLength cs

@[simp] theorem byteLength_nil : byteLength [] = 0 := rfl

@[simp] theorem byteLength_cons (c : Char) (cs : List Char) :
    byteLength (c :: cs) = c.utf8Size + byteLength cs := rfl

@[simp] theorem byteLength_append (xs ys : List Char) :
    byteLength (xs ++ ys) = byteLength xs + byteLength ys := by
  induction xs with
  | nil => simp
  | cons c xs ih => simp [ih, Nat.add_assoc]

end Text

/-- A line and a column, both counted from 1. -/
structure Location where
  line : Nat
  column : Nat
deriving DecidableEq, Repr

namespace Location

/-- The location of the first character. -/
def start : Location := ⟨1, 1⟩

/-- The location after a character; a line feed right after a carriage return has been counted with
it and moves nothing. -/
def next (l : Location) (afterReturn : Bool) (c : Char) : Location :=
  if c = '\n' && afterReturn then l
  else if c = '\n' || c = '\r' then ⟨l.line + 1, 1⟩
  else ⟨l.line, l.column + 1⟩

/-- The location reached over the characters that start within the first `bytes` bytes. -/
def walk (l : Location) (afterReturn : Bool) : List Char → Nat → Location
  | [], _ => l
  | c :: cs, bytes =>
    if bytes = 0 then l else (l.next afterReturn c).walk (c == '\r') cs (bytes - c.utf8Size)

/-- The location of a byte position, which may lie inside a character or beyond the end. -/
def ofPosition (source : List Char) (position : Nat) : Location :=
  start.walk false source position

@[simp] theorem ofPosition_zero (source : List Char) : ofPosition source 0 = start := by
  cases source <;> rfl

end Location

end Runbook
