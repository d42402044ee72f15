import Runbook.Invocation
import Runbook.Status
import Runbook.Store

/-!
# Commands

A command is what a name in a script stands for: a description, the least number of arguments, and a
body. The body is a function of its surroundings, `Env`: it sees the variables, the session's name,
whether the run has been cancelled, and how long it may still wait. What it does is a value,
`Effect`: how it ended, the variables and the cancellation it leaves, and what it put out, in order.
-/

namespace Runbook

/-- What the body of a command finds. -/
structure Env where
  session : String
  store : Store
  /-- The run is to stop. -/
  cancelled : Bool
  /-- The nanoseconds left until a time limit cancels the run, if it has one that has not struck. -/
  remaining : Option Nat

namespace Env

/-- Argument `i`, or the default. -/
def argument (env : Env) (i : Nat) (default : String) : String :=
  env.store.readText (argumentName i) default

/-- The number of arguments that the present step has bound, as the store tells it. -/
def argumentCount (env : Env) : Nat := env.store.read Value.toNat? argumentCountName 0

/-- The texts of the bound arguments, in their order. -/
def arguments (env : Env) : List String :=
  (List.range env.argumentCount).map fun i => env.argument i ""

/-- Lets time pass. A limit within that time strikes: it cancels the run, once. -/
def elapse (env : Env) (nanoseconds : Nat) : Env :=
  match env.remaining with
  | none => env
  | some left =>
    if left ≤ nanoseconds then { env with cancelled := true, remaining := none }
    else { env with remaining := some (left - nanoseconds) }

end Env

/-- How the body of a command ended. -/
inductive Ending where
  | finished (outcome : Outcome)
  | failed (reason : String)
  /-- The body gave up because the run has been cancelled. -/
  | cancelled
  /-- The body broke down, with a reason if there is a text for it. -/
  | crashed (reason : Option String)
deriving DecidableEq, Repr

/-- What the body of a command put out. -/
inductive Output where
  /-- A text for those who watch the status. -/
  | report (text : String)
  | line (text : String)
  | wait (nanoseconds : Nat)
deriving DecidableEq, Repr

/-- What the body of a command did. -/
structure Effect where
  ending : Ending
  store : Store
  cancelled : Bool
  remaining : Option Nat
  output : List Output

namespace Effect

/-- The surroundings of the next command. A body cannot give a run a time limit that it does not
have. -/
def env (e : Effect) (before : Env) : Env :=
  { before with
    store := e.store
    cancelled := e.cancelled
    remaining := before.remaining.bind fun _ => e.remaining }

end Effect

namespace Env

/-- The effect of ending here without any output. -/
def ending (env : Env) (ending : Ending) : Effect :=
  ⟨ending, env.store, env.cancelled, env.remaining, []⟩

/-- The effect of finishing here without any output. -/
def finish (env : Env) (outcome : Outcome) : Effect := env.ending (.finished outcome)

/-- The effect of waiting here. A cancelled run does not wait, and a time limit that strikes within
the wait cuts it short; both end it as cancelled. -/
def wait (env : Env) (nanoseconds : Nat) : Effect :=
  if env.cancelled then env.ending .cancelled
  else
    let after := if nanoseconds = 0 then env else env.elapse nanoseconds
    let ending := if after.cancelled then .cancelled else .finished .pass
    let waited := min nanoseconds (env.remaining.getD nanoseconds)
    { after.ending ending with output := [.wait waited] }

end Env

/-- What a script can call by a name: how it is listed, how many arguments it asks for, and what it
does. -/
structure Command where
  name : String
  description : String
  /-- The fewest arguments with which the body is run. -/
  minArguments : Nat
  body : Env → Effect

namespace Command

/-- The text of a command for those who look into a catalog. -/
def summary (c : Command) : String :=
  let name := Text.shown '"' c.name.toList
  let description := Text.shown '"' c.description.toList
  "Descriptor \x7b name: " ++ name ++ ", description: " ++ description ++ ", min_args: " ++
    toString c.minArguments ++ ", .. \x7d"

end Command

end Runbook
