import Runbook.Command

/-!
# Probe commands

Commands that end in a chosen way. A probe counts its calls in a variable before it does anything
else, so that a run tells which of its steps were run.
-/

namespace Runbook

/-- What a probe does after it has counted the call. -/
inductive Probe where
  | pass
  | passMessage
  | fail
  | failMessage
  | error
  | skipped
  | giveUp
  /-- Gives up as if the run had been cancelled. -/
  | giveUpCancelled
  | cancelRun
  | cancelPass
  | crash
  /-- Breaks down with its argument in the reason. -/
  | crashArgument
  /-- Breaks down without a text for it. -/
  | crashSilent
  /-- Breaks down before the call is counted. -/
  | crashEarly
  /-- Tells its arguments and their number. -/
  | count
  /-- Sets the variable named by its first argument to the second, read as an integer. -/
  | setInt
  | setFloat
  | setBool
  | sessionName
deriving DecidableEq, Repr

namespace Probe

/-- The variable in which calls of probes are counted. -/
def callsName : String := "calls"

/-- The surroundings after one more call of a probe. -/
def counted (env : Env) : Env :=
  let calls := env.store.read Value.toInt? callsName 0
  { env with store := env.store.set callsName (.int (calls + 1)) }

/-- Sets the variable named by the first argument to the second, read as another kind. -/
def setAs {α : Type} (env : Env) (as? : Value → Option α) (default : α) (value : α → Value) :
    Effect :=
  let read := env.store.read as? (argumentName 1) default
  ({ env with store := env.store.set (env.argument 0 "none") (value read) } : Env).finish .pass

/-- What a probe does after the call is counted. -/
def effect (probe : Probe) (env : Env) : Effect :=
  let argument := env.argument 0 "none"
  match probe with
  | .pass => env.finish .pass
  | .passMessage => env.finish ⟨.pass, some argument⟩
  | .fail => env.finish ⟨.fail, none⟩
  | .failMessage => env.finish (.fail argument)
  | .error => env.finish (.error argument)
  | .skipped => env.finish ⟨.skipped, some argument⟩
  | .giveUp => env.ending (.failed argument)
  | .giveUpCancelled => env.ending .cancelled
  | .cancelRun => ({ env with cancelled := true } : Env).ending .cancelled
  | .cancelPass => ({ env with cancelled := true } : Env).finish .pass
  | .crash => env.ending (.crashed (some "boom"))
  | .crashArgument => env.ending (.crashed (some ("boom " ++ argument)))
  | .crashSilent => env.ending (.crashed none)
  | .crashEarly => env.ending (.crashed (some "no factory"))
  | .count =>
    env.finish ⟨.pass, some (toString env.argumentCount ++ ":" ++ "|".intercalate env.arguments)⟩
  | .setInt => setAs env Value.toInt? 0 .int
  | .setFloat => setAs env Value.toFloat? (Binary64.zero false) .float
  | .setBool => setAs env Value.toBool? false .bool
  | .sessionName => env.finish ⟨.pass, some env.session⟩

/-- What a probe does, its call being counted as soon as its body is run. -/
def body (probe : Probe) (env : Env) : Effect :=
  match probe with
  | .crashEarly => probe.effect env
  | _ => probe.effect (counted env)

/-- The command of a probe, under a name of its own. -/
def command (probe : Probe) (name description : String) (minArguments : Nat) : Command :=
  ⟨name, description, minArguments, probe.body⟩

end Probe

end Runbook
