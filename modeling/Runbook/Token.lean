import Runbook.Text.Location
import Runbook.Text.Quoted

/-!
# Tokens

The kinds of token a script is made of, and what the characters of a token of each kind stand for.
Every character of a script belongs to exactly one token, blanks and line ends included.
-/

namespace Runbook

namespace Token

/-- The kinds of tokens. -/
inductive Kind where
  /-- An ASCII identifier. -/
  | word
  /-- ASCII digits with at most one fractional part. -/
  | number
  | quoted
  /-- Spaces and tabs. -/
  | blank
  /-- A dollar sign and an ASCII identifier. -/
  | variable
  /-- Any other character that can be printed. -/
  | symbol
  | lineEnd
  | inputEnd
deriving DecidableEq, Repr

/-- The kind in the words of a message. -/
def Kind.label : Kind → String
  | .word => "word"
  | .number => "number"
  | .quoted => "quoted string"
  | .blank => "white space"
  | .variable => "variable name"
  | .symbol => "symbol"
  | .lineEnd => "end of line"
  | .inputEnd => "end of input"

/-- Tokens of this kind end a line. -/
def Kind.endsLine (k : Kind) : Bool := k == .lineEnd || k == .inputEnd

/-- The text inside the quotes of a quoted string, each escaped quote or backslash written once. -/
def unescape : List Char → List Char
  | '\\' :: '"' :: cs => '"' :: unescape cs
  | '\\' :: '\\' :: cs => '\\' :: unescape cs
  | c :: cs => c :: unescape cs
  | [] => []

/-- What the characters of a token stand for: a variable loses its dollar sign, a quoted string its
quotes and escapes, and any other token stands for itself. -/
def Kind.meaning (k : Kind) (written : List Char) : List Char :=
  match k with
  | .variable => written.tail
  | .quoted => unescape written.tail.dropLast
  | _ => written

end Token

/-- The characters of one token, before it has a place in a script. -/
structure Lexeme where
  kind : Token.Kind
  written : List Char
deriving DecidableEq, Repr

/-- The characters that the lexeme stands for. -/
def Lexeme.text (l : Lexeme) : List Char := l.kind.meaning l.written

/-- A classified piece of a script. -/
structure Token where
  kind : Token.Kind
  /-- What the token stands for. -/
  text : String
  /-- The characters of the script that make up the token. -/
  lexeme : String
  /-- The byte position of the first of them. -/
  position : Nat
deriving DecidableEq, Repr

namespace Token

/-- The token is the last of its line. -/
def endsLine (t : Token) : Bool := t.kind.endsLine

/-- The token of a lexeme that stands at a position. -/
def ofLexeme (position : Nat) (l : Lexeme) : Token :=
  ⟨l.kind, String.ofList l.text, String.ofList l.written, position⟩

/-- Lexemes side by side, the first of them at the given byte position. -/
def place (position : Nat) : List Lexeme → List Token
  | [] => []
  | l :: ls => ofLexeme position l :: place (position + Text.byteLength l.written) ls

theorem unescape_cons {c : Char} (hc : c ≠ '\\') (cs : List Char) :
    unescape (c :: cs) = c :: unescape cs := by
  rw [unescape.eq_3]
  · rintro _ rfl
    exact absurd rfl hc
  · rintro _ rfl
    exact absurd rfl hc

/-- Escaping is undone, whatever the text. -/
theorem unescape_escape (cs : List Char) : unescape (Text.escape cs) = cs := by
  induction cs with
  | nil => rfl
  | cons c cs ih =>
    simp only [Text.escape]
    split
    · rename_i h
      rcases h with rfl | rfl <;> simp [unescape, ih]
    · rename_i h
      rw [unescape_cons (fun e => h (.inr e)), ih]

end Token

end Runbook
