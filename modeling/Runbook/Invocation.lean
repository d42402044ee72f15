import Runbook.Token

/-!
# Invocations

A line of a script names a function and gives it arguments. An argument is a row of parts; parts
that name variables stay symbolic until the step is about to run, so that a step can use what an
earlier one has set.
-/

namespace Runbook

/-- A part of an argument: text as it stands, or a variable. -/
inductive Part where
  | literal (text : String)
  /-- Stands for the current text of a variable. -/
  | variable (name : String)
deriving DecidableEq, Repr

namespace Part

/-- The part that a token stands for; only a variable does not stand for its own text. -/
def ofToken (t : Token) : Part :=
  match t.kind with
  | .variable => .variable t.text
  | _ => .literal t.text

/-- Puts a part in front; two literals side by side become one. -/
def cons : Part → List Part → List Part
  | .literal a, .literal b :: parts => .literal (a ++ b) :: parts
  | part, parts => part :: parts

/-- The text of a part; an undefined variable contributes its name. -/
def resolve (lookup : String → Option String) : Part → String
  | .literal text => text
  | .variable name => (lookup name).getD name

end Part

/-- An argument: parts that are written without a blank between them. -/
structure Argument where
  parts : List Part
deriving DecidableEq, Repr

namespace Argument

/-- The argument written by tokens that stand side by side. -/
def ofTokens (ts : List Token) : Argument :=
  ⟨ts.foldr (fun t parts => (Part.ofToken t).cons parts) []⟩

/-- The text of an argument under the given values of the variables. -/
def resolve (lookup : String → Option String) (a : Argument) : String :=
  String.join (a.parts.map (Part.resolve lookup))

theorem resolve_cons (lookup : String → Option String) (part : Part) (parts : List Part) :
    resolve lookup ⟨part :: parts⟩ = part.resolve lookup ++ resolve lookup ⟨parts⟩ := by
  unfold resolve
  rw [List.map_cons, String.join_cons]

end Argument

/-- One step of a script: a function by name, and its arguments. -/
structure Invocation where
  name : String
  arguments : List Argument
  /-- The line of the script, from 1. -/
  line : Nat
  /-- The byte position of the name. -/
  position : Nat
deriving DecidableEq, Repr

/-- The name of the variable that holds an argument. -/
def argumentName (i : Nat) : String := "Argument" ++ toString i

/-- The name of the variable that holds the number of arguments. -/
def argumentCountName : String := "ArgumentCount"

namespace Invocation

/-- The texts of the arguments under the given values of the variables. -/
def texts (lookup : String → Option String) (inv : Invocation) : List String :=
  inv.arguments.map (Argument.resolve lookup)

/-- The variables that carry the arguments to the function, with their texts. -/
def bindings (lookup : String → Option String) (inv : Invocation) : List (String × String) :=
  (inv.texts lookup).zipIdx.map fun (text, i) => (argumentName i, text)

end Invocation

end Runbook
