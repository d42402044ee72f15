import Runbook.Text.Bytes
import Runbook.Token

/-!
# Scanning

A script is cut into tokens from left to right; each token is the longest that its first characters
allow. `Lexeme.measure` finds the kind and size of the first token from the characters alone,
`Lexeme.split` repeats it, and `Scan.ofChars` adds positions and locations. Scanning stops at the
first fault: a quoted string that its line does not close, or a control character.

A `TokenCursor` reads the same tokens one by one. It holds a byte position in the script and nothing
else, looks at the characters from there on, and cuts each token out of the script.
-/

namespace Runbook

/-- Why no token starts at a character. -/
inductive ScanFault where
  /-- A quote opens a string that its line does not close. -/
  | unterminated
  /-- A control character outside every string. -/
  | invalid (c : Char)
deriving DecidableEq, Repr

namespace Lexeme

/-! ## Character classes -/

/-- Blanks within a line are spaces and tabs. -/
def isSpace (c : Char) : Bool := c == ' ' || c == '\t'

/-- An ASCII letter or an underscore, which may start an identifier. -/
def isWordStart (c : Char) : Bool := c.isAlpha || c == '_'

/-- The characters of a word behind its first: ASCII letters, digits and underscores. -/
def isWordPart (c : Char) : Bool := c.isAlphanum || c == '_'

/-- A control character: below the space, or from delete to the last of the second control block. -/
def isControl (c : Char) : Bool := c.toNat < 0x20 || (0x7F ≤ c.toNat && c.toNat ≤ 0x9F)

/-! ## The first lexeme -/

/-- The number of characters at the front that are in the class. -/
def run (p : Char → Bool) (cs : List Char) : Nat := (cs.takeWhile p).length

/-- The size of the rest of a number: digits, and a point if a digit follows it. -/
def numberSize (cs : List Char) : Nat :=
  let n := run Char.isDigit cs
  match cs.drop n with
  | '.' :: d :: rest => if d.isDigit then n + 2 + run Char.isDigit rest else n
  | _ => n

/-- The size of the rest of a quoted string, closing quote included, if its line closes it. -/
def quotedSize : List Char → Option Nat
  | [] => none
  | '"' :: _ => some 1
  | '\\' :: '"' :: cs => (quotedSize cs).map (· + 2)
  | '\\' :: '\\' :: cs => (quotedSize cs).map (· + 2)
  | c :: cs => if c == '\n' || c == '\r' then none else (quotedSize cs).map (· + 1)

/-- The kind of the first lexeme of `c :: cs`, and how many characters of `cs` belong to it. -/
def measure (c : Char) (cs : List Char) : Except ScanFault (Token.Kind × Nat) :=
  if isSpace c then .ok (.blank, run isSpace cs)
  else if c == '\n' then .ok (.lineEnd, 0)
  else if c == '\r' then .ok (.lineEnd, if cs.head? = some '\n' then 1 else 0)
  else if c == '"' then
    match quotedSize cs with
    | some n => .ok (.quoted, n)
    | none => .error .unterminated
  else if c == '$' && cs.head?.any isWordStart then .ok (.variable, run isWordPart cs)
  else if c.isDigit then .ok (.number, numberSize cs)
  else if isWordStart c then .ok (.word, run isWordPart cs)
  else if isControl c then .error (.invalid c)
  else .ok (.symbol, 0)

/-- The lexemes of a text up to its end or its first fault. -/
def split : List Char → List Lexeme × Option ScanFault
  | [] => ([], none)
  | c :: cs =>
    match measure c cs with
    | .error fault => ([], some fault)
    | .ok (kind, n) =>
      let (ls, fault) := split (cs.drop n)
      (⟨kind, c :: cs.take n⟩ :: ls, fault)
termination_by cs => cs.length
decreasing_by simp only [List.length_drop, List.length_cons]; omega

/-- The characters of lexemes, side by side. -/
def joined (ls : List Lexeme) : List Char := ls.flatMap (·.written)

theorem split_nil : split [] = ([], none) := by rw [split]

theorem split_of_error {c : Char} {cs : List Char} {fault : ScanFault}
    (h : measure c cs = .error fault) : split (c :: cs) = ([], some fault) := by
  rw [split, h]

theorem split_of_ok {c : Char} {cs : List Char} {kind : Token.Kind} {n : Nat}
    (h : measure c cs = .ok (kind, n)) :
    split (c :: cs) =
      (⟨kind, c :: cs.take n⟩ :: (split (cs.drop n)).1, (split (cs.drop n)).2) := by
  rw [split, h]

end Lexeme

/-- The first fault of a script, with its place. -/
structure ScanError where
  fault : ScanFault
  position : Nat
  location : Location
deriving DecidableEq, Repr

namespace ScanError

/-- The words in which a fault is reported, with the place where it is. -/
def message (e : ScanError) : String :=
  match e.fault with
  | .unterminated =>
    s!"unterminated string starting at line {e.location.line}, column {e.location.column}"
  | .invalid c =>
    let name := Text.shown '\x27' [c]
    s!"invalid character {name} at line {e.location.line}, column {e.location.column}"

end ScanError

/-- The tokens of a script up to its end or its first fault. -/
structure Scan where
  tokens : List Token
  error? : Option ScanError
deriving DecidableEq, Repr

namespace Scan

/-- The scan of a text; without a fault its last token marks the end of the input. -/
def ofChars (cs : List Char) : Scan :=
  let (ls, fault) := Lexeme.split cs
  let stop := Text.byteLength (Lexeme.joined ls)
  match fault with
  | none => ⟨Token.place 0 ls ++ [Token.ofLexeme stop ⟨.inputEnd, []⟩], none⟩
  | some fault => ⟨Token.place 0 ls, some ⟨fault, stop, Location.ofPosition cs stop⟩⟩

/-- The tokens of a script, up to its first fault. -/
def ofString (source : String) : Scan := ofChars source.toList

/-- All tokens, or the fault instead. -/
def toExcept (s : Scan) : Except ScanError (List Token) :=
  match s.error? with
  | none => .ok s.tokens
  | some e => .error e

/-- What a reader meets one after the other: the tokens, then the error if there is one. -/
def items (s : Scan) : List (Except ScanError Token) :=
  s.tokens.map .ok ++ s.error?.toList.map .error

end Scan

/-! ## Reading token by token -/

/-- A reader that stands at a byte position of a script. -/
structure TokenCursor where
  source : String
  position : Nat
  /-- The end of the input or a fault has been met. -/
  finished : Bool
deriving DecidableEq, Repr

namespace TokenCursor

/-- What a reader meets at a position: a token with the position after it, the end of the input, or
a fault. -/
inductive Found where
  | token (t : Token) (stop : Nat)
  | inputEnd
  | fault (fault : ScanFault)
deriving DecidableEq, Repr

/-- Reads a token that stands for itself. -/
def plain (source : String) (kind : Token.Kind) (start stop : Nat) : Text.Reading Found := do
  let lexeme ← Text.slice source start stop
  return .token ⟨kind, lexeme, lexeme, start⟩ stop

/-- Reads the rest of a quoted string: the position after the closing quote and the text with what
stands before, or nothing if the line does not close it. -/
def quoted (source : String) (position : Nat) (text : String) :
    Text.Reading (Option (Nat × String)) := do
  match ← Text.charAt source position with
  | none => return none
  | some ⟨c, _⟩ =>
    if c == '\n' || c == '\r' then return none
    else if c == '"' then return some (position + 1, text)
    else if c == '\\' then
      match ← Text.charAt source (position + 1) with
      | some ⟨d, _⟩ =>
        if d == '"' || d == '\\' then quoted source (position + 2) (text.push d)
        else quoted source (position + 1) (text.push c)
      | none => quoted source (position + 1) (text.push c)
    else quoted source (position + c.utf8Size) (text.push c)
termination_by source.utf8ByteSize - position
decreasing_by
  · omega
  · omega
  · omega
  · have := c.utf8Size_pos
    omega

/-- Reads a string, the opening quote of which is at the position. -/
def readQuoted (source : String) (start : Nat) : Text.Reading Found := do
  match ← quoted source (start + 1) "" with
  | some (stop, text) =>
    let lexeme ← Text.slice source start stop
    return .token ⟨.quoted, text, lexeme, start⟩ stop
  | none => return .fault .unterminated

/-- Reads a variable, the dollar sign of which is at the position. -/
def readVariable (source : String) (start : Nat) : Text.Reading Found := do
  let stop ← Text.passOver Lexeme.isWordPart source (start + 1)
  let lexeme ← Text.slice source start stop
  let text ← Text.slice source (start + 1) stop
  return .token ⟨.variable, text, lexeme, start⟩ stop

/-- Goes over a point with a digit after it and all digits that follow. -/
def fraction (source : String) (position : Nat) : Text.Reading Nat := do
  if ← Text.startsIn (· == '.') source position then
    if ← Text.startsIn Char.isDigit source (position + 1) then
      Text.passOver Char.isDigit source (position + 1)
    else return position
  else return position

/-- Reads one item at a position. The first character decides on its kind, except that a dollar sign
needs the start of a word behind it to be that of a variable. -/
def read (source : String) (start : Nat) : Text.Reading Found := do
  match ← Text.charAt source start with
  | none => return .inputEnd
  | some ⟨c, _⟩ =>
    if Lexeme.isSpace c then
      plain source .blank start (← Text.passOver Lexeme.isSpace source start)
    else if c == '\n' then plain source .lineEnd start (start + 1)
    else if c == '\r' then
      if ← Text.startsIn (· == '\n') source (start + 1) then
        plain source .lineEnd start (start + 2)
      else plain source .lineEnd start (start + 1)
    else if c == '"' then readQuoted source start
    else if c == '$' then
      if ← Text.startsIn Lexeme.isWordStart source (start + 1) then readVariable source start
      else plain source .symbol start (start + 1)
    else if c.isDigit then
      let stop ← Text.passOver Char.isDigit source start
      plain source .number start (← fraction source stop)
    else if Lexeme.isWordStart c then
      plain source .word start (← Text.passOver Lexeme.isWordPart source start)
    else if Lexeme.isControl c then return .fault (.invalid c)
    else plain source .symbol start (start + c.utf8Size)

/-- A cursor at the front of a script. -/
def start (source : String) : TokenCursor := ⟨source, 0, false⟩

/-- Reads the next item, if there is one, and stands behind it. -/
def advance (c : TokenCursor) : Text.Reading (Option (Except ScanError Token) × TokenCursor) := do
  if c.finished then return (none, c)
  else
    match ← read c.source c.position with
    | .token t stop => return (some (.ok t), { c with position := stop })
    | .inputEnd => return (some (.ok ⟨.inputEnd, "", "", c.position⟩), { c with finished := true })
    | .fault fault =>
      let location := Location.ofPosition c.source.toList c.position
      return (some (.error ⟨fault, c.position, location⟩), { c with finished := true })

/-- Takes the next item; there is none after the end and after a fault. -/
def next (c : TokenCursor) : Option (Except ScanError Token) × TokenCursor :=
  c.advance.found?.getD (none, { c with finished := true })

/-- The next item, which stays to be read. -/
def peek (c : TokenCursor) : Option (Except ScanError Token) := c.next.1

/-- Takes the next items, as many as there are up to a number. -/
def take : Nat → TokenCursor → List (Except ScanError Token) × TokenCursor
  | 0, c => ([], c)
  | n + 1, c =>
    match c.next with
    | (none, c) => ([], c)
    | (some item, c) =>
      let (items, c) := take n c
      (item :: items, c)

/-- Takes all that is left: no more tokens than bytes, and the end or a fault. -/
def rest (c : TokenCursor) : List (Except ScanError Token) × TokenCursor :=
  c.take (c.source.utf8ByteSize + 1)

/-- The cursor at the front of its script again. -/
def reset (c : TokenCursor) : TokenCursor := start c.source

end TokenCursor

/-- All tokens of a script, or its first fault. -/
def tokenize (source : String) : Except ScanError (List Token) :=
  (TokenCursor.start source).rest.1.mapM id

end Runbook
