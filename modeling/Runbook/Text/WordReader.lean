import Runbook.Text.Words

/-!
# Reading words character by character

`words` says of every place of a line what is found from there on. A `WordReader` goes through the
line once, from left to right. It knows whether it is inside of quotes, has the letters of one word
in hand, and puts that word out at a blank outside of quotes and at the end of the line.
-/

namespace Runbook

namespace Text

/-- The words of a line as far as it has been gone through. -/
structure WordReader where
  inQuotes : Bool
  /-- A quote belongs to the word in hand, which then counts without letters as well. -/
  hasQuote : Bool
  letters : List Char
  words : List String
deriving DecidableEq, Repr

namespace WordReader

/-- The reader at the front of a line. -/
def start : WordReader := ⟨false, false, [], []⟩

/-- The words, the one in hand included if there is one. -/
def all (r : WordReader) : List String :=
  if r.letters ≠ [] ∨ r.hasQuote then r.words ++ [String.ofList r.letters] else r.words

/-- One more letter of the word in hand. -/
def push (r : WordReader) (c : Char) : WordReader := { r with letters := r.letters ++ [c] }

/-- A quote opens a stretch of the word in hand, or closes it. -/
def turn (r : WordReader) : WordReader := { r with inQuotes := !r.inQuotes, hasQuote := true }

/-- Puts the word in hand out. -/
def close (r : WordReader) : WordReader :=
  { r with hasQuote := false, letters := [], words := r.all }

/-- Goes through the characters that are left. -/
def read (r : WordReader) : List Char → List String
  | [] => r.all
  | c :: cs =>
    if c = '"' then r.turn.read cs
    else if c = '\\' ∧ r.inQuotes then
      match cs with
      | [] => r.all
      | taken :: cs => (r.push taken).read cs
    else if isAsciiBlank c ∧ !r.inQuotes then r.close.read cs
    else (r.push c).read cs

end WordReader

end Text

end Runbook
