import Runbook.Run.Event

/-!
# Runs as they go on

`Engine.execute` says what a run comes to, and its events are read off its records afterwards. A
`Course` is a run under way: it is in one phase, and what happens is written down when it happens.
Whether the run has stopped shows in the phase alone.
-/

namespace Runbook

/-- A run under way. -/
structure Course where
  env : Env
  /-- How many arguments the last step bound. -/
  bound : Nat
  /-- How many invocations have been taken up. -/
  taken : Nat
  phase : Phase
  records : List Record
  events : List Event

namespace Course

/-- A run that is about to begin; arguments that an earlier run has left are still bound. -/
def start (env : Env) : Course := ⟨env, env.argumentCount, 0, .idle, [], []⟩

/-- Goes over to a phase. -/
def move (target : Phase) (c : Course) : Course :=
  { c with phase := target, events := c.events ++ [.moved c.phase target] }

/-- Writes down what has happened. -/
def note (events : List Event) (c : Course) : Course := { c with events := c.events ++ events }

/-- Lets time pass. -/
def elapse (nanoseconds : Nat) (c : Course) : Course :=
  { c with env := c.env.elapse nanoseconds }

/-- Keeps the record of an invocation that has been dealt with. -/
def enter (r : Record) (c : Course) : Course :=
  { c with records := c.records ++ [r], taken := c.taken + 1 }

/-- The account of the run as far as it has come. -/
def run (c : Course) : Run := ⟨c.records, c.phase == .aborted, c.env⟩

/-- The course of a run that has ended, as an execution. -/
def execution (c : Course) : Execution := ⟨.ok c.run, c.env, c.events⟩

end Course

namespace Engine

/-- Resolves, binds and executes one invocation. -/
def attemptNow (engine : Engine) (c : Course) (inv : Invocation) : Conduct × Course :=
  let c := c.move .resolving
  match engine.catalog.find? inv.name with
  | none => (.unknown, c.note (Conduct.unknown.incidents inv))
  | some command =>
    if inv.arguments.length < command.minArguments then (.short command, c)
    else
      let c := { c with
        env.store := c.env.store.bind c.bound inv
        bound := inv.arguments.length }
      let c := (c.move .executing).elapse (engine.pace.entering c.taken)
      let effect := command.body c.env
      let conduct := .ran command c.env effect
      (conduct, { c with env := effect.env c.env }.note (conduct.incidents inv))

/-- Records what was done with an invocation, and stops the run if there is a reason to. -/
def settleNow (engine : Engine) (inv : Invocation) (cancelled : Bool) (conduct : Conduct)
    (c : Course) : Course :=
  let status := (conduct.outcome inv).status
  let c := (c.move .recording).note [.finished inv.line (conduct.name inv) status]
  let c := if cancelled then c else c.elapse (engine.pace.leaving c.taken)
  let stops := cancelled || c.env.cancelled || (engine.policy == .abort && !status.isPass)
  let c := c.enter ⟨inv, engine.description inv.name, conduct, stops⟩
  if stops then c.move .aborted else c

/-- Takes up one invocation. -/
def take (engine : Engine) (c : Course) (inv : Invocation) : Course :=
  if c.phase = .aborted then c.enter ⟨inv, engine.description inv.name, .skipped, false⟩
  else
    let c := c.elapse (engine.pace.arriving c.taken)
    if c.env.cancelled then engine.settleNow inv true .cancelled c
    else
      let (conduct, c) := engine.attemptNow c inv
      engine.settleNow inv false conduct c

/-- Ends a run of which all invocations have been taken up. -/
def close (engine : Engine) (c : Course) : Course :=
  let c := c.elapse (engine.pace.arriving c.taken)
  if c.phase = .aborted then c else c.move .completed

end Engine

end Runbook
