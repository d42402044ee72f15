import Runbook.Text.Unseen

/-!
# Quoted text

Three ways of writing a text between quotes.

* `Text.shown` is for a reader of messages: what cannot be seen on its own is named by its number.
* `Text.json` is a string of a JSON report.
* `Text.quoted` is a quoted string of a script or of a settings file: a backslash stands before each
  quote and backslash, and nothing else is special.
-/

namespace Runbook

namespace Text

/-- A number in lower-case hexadecimal digits. -/
def hex (n : Nat) : List Char := Nat.toDigits 16 n

/-! ## For a reader -/

/-- A character as a reader of messages sees it between quotes of the given kind. -/
def shownChar (quote c : Char) : List Char :=
  if c == '\x00' then ['\\', '0']
  else if c == '\t' then ['\\', 't']
  else if c == '\r' then ['\\', 'r']
  else if c == '\n' then ['\\', 'n']
  else if c == quote || c == '\\' then ['\\', c]
  else if isUnseen c then ['\\', 'u', '{'] ++ hex c.toNat ++ ['}']
  else [c]

/-- A text for a reader of messages, between quotes of the given kind. -/
def shown (quote : Char) (cs : List Char) : String :=
  String.ofList (quote :: cs.flatMap (shownChar quote) ++ [quote])

/-! ## For a report -/

/-- A character in a JSON string; only quotes, backslashes and control characters are escaped. -/
def jsonChar (c : Char) : List Char :=
  if c == '"' || c == '\\' then ['\\', c]
  else if c == '\x08' then ['\\', 'b']
  else if c == '\x0c' then ['\\', 'f']
  else if c == '\n' then ['\\', 'n']
  else if c == '\r' then ['\\', 'r']
  else if c == '\t' then ['\\', 't']
  else if c.toNat < 0x10 then ['\\', 'u', '0', '0', '0'] ++ hex c.toNat
  else if c.toNat < 0x20 then ['\\', 'u', '0', '0'] ++ hex c.toNat
  else [c]

/-- A text as a JSON string. -/
def json (s : String) : String :=
  String.ofList ('"' :: s.toList.flatMap jsonChar ++ ['"'])

/-! ## For a script or a settings file -/

/-- The text with a backslash before each quote and each backslash. -/
def escape : List Char → List Char
  | [] => []
  | c :: cs => if c = '"' ∨ c = '\\' then '\\' :: c :: escape cs else c :: escape cs

/-- Characters between quotes, with a backslash before each quote and each backslash. -/
def quoted (cs : List Char) : List Char := '"' :: escape cs ++ ['"']

end Text

end Runbook
