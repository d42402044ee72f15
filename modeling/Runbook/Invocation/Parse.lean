import Runbook.Invocation
import Runbook.Token.Scan

/-!
# Reading scripts

A script is read line by line. A blank line and a line whose first token is `#` hold no invocation;
any other line is the name of a function, then arguments between blanks. Tokens that stand side by
side make one argument. The first line with a defect decides the error, and a fault of scanning
comes before the other defects of its line, because a line is read only once its end is scanned.
-/

namespace Runbook

/-- Why a text is no script. -/
inductive ParseError where
  | scan (error : ScanError)
  /-- The first token of a line can be no name. -/
  | expectedName (found : String) (kind : Token.Kind) (location : Location)
  /-- Something stands right after the name. -/
  | malformedName (name : String) (location : Location)
deriving DecidableEq, Repr

namespace ParseError

/-- The words in which an error is reported, with the place where it is. -/
def message : ParseError → String
  | .scan error => error.message
  | .expectedName found kind ⟨line, column⟩ =>
    s!"expected a function name at line {line}, column {column}, found {kind.label} `{found}`"
  | .malformedName name ⟨line, column⟩ =>
    s!"function name `{name}` must be followed by white space (line {line}, column {column})"

end ParseError

/-! ## Lines and arguments -/

/-- The tokens of each line whose end is among the tokens, without the token that ends it. -/
def Token.lines : List Token → List (List Token)
  | [] => []
  | t :: ts =>
    if t.endsLine then [] :: lines ts
    else match lines ts with
      | [] => []
      | l :: ls => (t :: l) :: ls

/-- The maximal rows of tokens without a blank. -/
def Token.groups : List Token → List (List Token)
  | [] => []
  | t :: ts =>
    if t.kind = .blank then groups ts
    else match ts with
      | [] => [[t]]
      | u :: _ =>
        if u.kind = .blank then [t] :: groups ts
        else match groups ts with
          | [] => [[t]]
          | g :: gs => (t :: g) :: gs

namespace Invocation

/-- The place of a token that the line of the given number holds; its column is looked up in the
whole text. -/
def locate (source : List Char) (line : Nat) (t : Token) : Location :=
  ⟨line, (Location.ofPosition source t.position).column⟩

/-- What the tokens of one line say. -/
def ofLine (source : List Char) (line : Nat) (ts : List Token) :
    Except ParseError (Option Invocation) :=
  match ts.dropWhile (·.kind = .blank) with
  | [] => .ok none
  | head :: rest =>
    if head.kind = .word then
      if rest.head?.any (·.kind ≠ .blank) then
        .error (.malformedName head.text (locate source line head))
      else .ok (some ⟨head.text, (Token.groups rest).map Argument.ofTokens, line, head.position⟩)
    else if head.kind = .symbol ∧ head.text = "#" then .ok none
    else .error (.expectedName head.lexeme head.kind (locate source line head))

/-- The invocations of lines, the first of which has the given number. -/
def ofLines (source : List Char) (line : Nat) : List (List Token) →
    Except ParseError (List Invocation)
  | [] => .ok []
  | ts :: lines => do
    let first ← ofLine source line ts
    let others ← ofLines source (line + 1) lines
    return first.toList ++ others

/-- The invocations of a text, its lines counted from 1. A wrong line is reported before a fault
that stands behind it. -/
def ofChars (source : List Char) : Except ParseError (List Invocation) := do
  let scan := Scan.ofChars source
  let invocations ← ofLines source 1 (Token.lines scan.tokens)
  match scan.error? with
  | none => return invocations
  | some error => throw (.scan error)

end Invocation

/-- The invocations of a script, one for each line that calls a command. -/
def parse (source : String) : Except ParseError (List Invocation) :=
  Invocation.ofChars source.toList

end Runbook
