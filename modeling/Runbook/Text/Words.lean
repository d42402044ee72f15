import Runbook.Text.Blank
import Runbook.Text.Quoted

/-!
# Lines and words

A text is cut into lines at line feeds, and a line of settings into words at ASCII blanks outside of
quotes. A quote opens or closes a quoted stretch of a word, also in its middle; within the stretch a
backslash takes the next character as it is. A word without characters counts if it has a quote.
-/

namespace Runbook

namespace Text

/-- The lines of a text; a line feed at the very end opens no further line. -/
def lines : List Char → List (List Char)
  | [] => []
  | c :: cs =>
    if c = '\n' then [] :: lines cs
    else match lines cs with
      | [] => [[c]]
      | l :: ls => (c :: l) :: ls

/-- What is found from a point on: the rest of the word at that point, whether a quote belongs to
that rest, and the words after it. -/
structure WordRest where
  letters : List Char
  hasQuote : Bool
  others : List (List Char)

namespace WordRest

/-- The words, the one at the point included if there is one. -/
def all (r : WordRest) : List (List Char) :=
  if r.letters = [] ∧ r.hasQuote = false then r.others else r.letters :: r.others

/-- One more letter of the word at the point. -/
def letter (c : Char) (r : WordRest) : WordRest := { r with letters := c :: r.letters }

/-- What is found from a point inside or outside of quotes on. -/
def ofChars (inQuotes : Bool) : List Char → WordRest
  | [] => ⟨[], false, []⟩
  | c :: cs =>
    if c = '"' then { ofChars (!inQuotes) cs with hasQuote := true }
    else if c = '\\' ∧ inQuotes then
      match cs with
      | [] => ⟨[], false, []⟩
      | taken :: cs => (ofChars inQuotes cs).letter taken
    else if isAsciiBlank c ∧ !inQuotes then ⟨[], false, (ofChars inQuotes cs).all⟩
    else (ofChars inQuotes cs).letter c

end WordRest

/-- The words of a line, without the blanks between them and without their quotes. -/
def words (cs : List Char) : List String := (WordRest.ofChars false cs).all.map String.ofList

end Text

end Runbook
