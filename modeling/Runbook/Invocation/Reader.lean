import Runbook.Invocation.Parse

/-!
# Reading scripts token by token

`parse` scans a whole script and only then goes through its lines. A `Reader` does both at once: it
keeps the tokens of the line that it is in, reads the line when a token ends it, and stops at the
first error, whether that is a fault of scanning or a defect of a line. What stands behind the error
is never looked at.

The arguments of a line are gone through from left to right as well. An `ArgumentReader` has at
most one argument open, which a blank closes, and each part is pushed to its end.
-/

namespace Runbook

/-! ## Arguments -/

/-- Puts a part at the end; a literal behind a literal is joined to it. -/
def Argument.push (a : Argument) (part : Part) : Argument :=
  match part, a.parts.getLast? with
  | .literal text, some (.literal last) => ⟨a.parts.dropLast ++ [.literal (last ++ text)]⟩
  | _, _ => ⟨a.parts ++ [part]⟩

/-- The arguments of a line as far as it has been gone through. -/
structure ArgumentReader where
  closed : List Argument
  /-- The argument that a token other than a blank goes on with. -/
  current : Option Argument
deriving DecidableEq, Repr

namespace ArgumentReader

/-- No argument has begun. -/
def start : ArgumentReader := ⟨[], none⟩

/-- A blank closes an argument, and any other token goes on with it or begins one. -/
def take (r : ArgumentReader) (t : Token) : ArgumentReader :=
  if t.kind = .blank then ⟨r.closed ++ r.current.toList, none⟩
  else { r with current := some ((r.current.getD ⟨[]⟩).push (Part.ofToken t)) }

/-- The end of the line closes what is open. -/
def arguments (r : ArgumentReader) : List Argument := r.closed ++ r.current.toList

/-- Goes through the tokens behind a name. -/
def read (ts : List Token) : List Argument := (ts.foldl take start).arguments

end ArgumentReader

/-! ## Lines -/

/-- A reader in a line of a script. -/
structure Reader where
  line : Nat
  /-- The tokens of the line so far. -/
  pending : List Token
  /-- What the lines before say. -/
  invocations : List Invocation
deriving DecidableEq, Repr

namespace Reader

/-- The reader at the front of a script. -/
def start : Reader := ⟨1, [], []⟩

/-- The end of a line concludes it, and any other token waits for that. A fault ends the reading. -/
def take (source : List Char) (r : Reader) :
    Except ScanError Token → Except ParseError Reader
  | .error e => .error (.scan e)
  | .ok t =>
    if t.endsLine then do
      let found ← Invocation.ofLine source r.line r.pending
      return ⟨r.line + 1, [], r.invocations ++ found.toList⟩
    else .ok { r with pending := r.pending ++ [t] }

/-- Reads what a cursor yields, one item after the other, up to the first error. -/
def read (source : String) : Except ParseError (List Invocation) := do
  let last ← (TokenCursor.start source).rest.1.foldlM (take source.toList) start
  return last.invocations

end Reader

end Runbook
