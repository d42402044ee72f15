import Runbook.Command

/-!
# The standard commands

The commands every catalog offers unless it is made without them: they set, remove and check
variables, report a status, write a line, fail on purpose and wait.
-/

namespace Runbook

namespace Command

/-- The variable that holds the last reported status. -/
def statusName : String := "Status"

/-- The variable that holds the last written line. -/
def lastEchoName : String := "LastEcho"

/-- What is reported when no status text is given. -/
def statusPrompt : String := "Enter a status message"

/-- The wording for a variable that is not set. -/
def notSetMessage (name : String) : String := s!"variable `{name}` is not set"

/-- Shows its argument as the status, or a prompt without one, and keeps it in a variable. -/
def updateStatus : Command where
  name := "UpdateStatus"
  description := "Update the status shown to the observing client"
  minArguments := 0
  body env :=
    let text := env.argument 0 statusPrompt
    { ({ env with store := env.store.set statusName (.text text) } : Env).finish .pass with
      output := [.report text] }

/-- Sets the variable named by its first argument to the second. -/
def set : Command where
  name := "Set"
  description := "Set a variable"
  minArguments := 2
  body env :=
    let name := env.argument 0 ""
    if name = "" then env.finish (.error "variable name is empty")
    else
      ({ env with store := env.store.set name (.text (env.argument 1 "")) } : Env).finish .pass

/-- Removes the variable named by its argument, and fails if it is not set. -/
def unset : Command where
  name := "Unset"
  description := "Remove a variable"
  minArguments := 1
  body env :=
    let name := env.argument 0 ""
    let (found, store) := env.store.unset name
    ({ env with store } : Env).finish (if found then .pass else .fail (notSetMessage name))

/-- Writes its arguments to the log in one line, which it keeps in a variable. -/
def echo : Command where
  name := "Echo"
  description := "Log a line of text"
  minArguments := 0
  body env :=
    let line := " ".intercalate env.arguments
    { ({ env with store := env.store.set lastEchoName (.text line) } : Env).finish
        ⟨.pass, some line⟩ with
      output := [.line line] }

/-- Compares its first argument with the expected second. -/
def assertEqual : Command where
  name := "AssertEqual"
  description := "Check that two values are equal"
  minArguments := 2
  body env :=
    let actual := env.argument 0 ""
    let expected := env.argument 1 ""
    env.finish
      (if actual = expected then .pass else .fail s!"expected `{expected}`, got `{actual}`")

/-- Checks that the variable named by the first argument is set. -/
def assertSet : Command where
  name := "AssertSet"
  description := "Check that a variable is set"
  minArguments := 1
  body env :=
    let name := env.argument 0 ""
    env.finish (if env.store.contains name then .pass else .fail (notSetMessage name))

/-- Fails with its argument as the reason. -/
def fail : Command where
  name := "Fail"
  description := "Fail with a message"
  minArguments := 0
  body env := env.finish (.fail (env.argument 0 "failed"))

/-- Waits for the milliseconds given by the first argument. A run that is cancelled before, or whose
time limit strikes within the wait, ends it as cancelled. -/
def sleep : Command where
  name := "Sleep"
  description := "Wait for a number of milliseconds"
  minArguments := 1
  body env :=
    let raw := env.argument 0 ""
    match (env.store.get? (argumentName 0)).bind Value.toNat? with
    | none => env.finish (.error s!"invalid duration `{raw}`")
    | some milliseconds => env.wait (milliseconds * 1000000)

/-- The standard commands, in the order in which a catalog takes them up. -/
def standard : List Command :=
  [updateStatus, set, unset, echo, assertEqual, assertSet, fail, sleep]

end Command

end Runbook
