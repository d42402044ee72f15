import Runbook.Catalog
import Runbook.Invocation.Parse

/-!
# Runs

A run takes the invocations of a script one by one. Each is looked up in the catalog, its arguments
are bound to variables, and the body of its command is run. What happened to an invocation is kept
in a `Record`; the results, the reported texts and the events of a run are read off its records.

A step stops the run if the run is found cancelled before or after it, or if it did not pass and the
policy is to abort. The invocations after a stop are skipped: nothing of them is bound or run.
-/

namespace Runbook

/-! ## What a step leaves -/

/-- What happened to an invocation. -/
inductive Conduct where
  /-- The run had stopped before. -/
  | skipped
  /-- The run was found cancelled. -/
  | cancelled
  /-- There is no command of the name. -/
  | unknown
  /-- The command wants more arguments. -/
  | short (command : Command)
  /-- The body was run in these surroundings, to this effect. -/
  | ran (command : Command) (env : Env) (effect : Effect)

/-- The outcome of a step whose body ended so; what goes wrong in a body is an error of its step. -/
def Ending.outcome (name : String) : Ending → Outcome
  | .finished outcome => outcome
  | .failed reason => .error s!"`{name}` faulted: {reason}"
  | .cancelled => .error "cancelled"
  | .crashed reason =>
    let reason := reason.getD "unknown panic"
    .error s!"`{name}` panicked: {reason}"

/-- What a step came to, as it is shown to the owner of the run. -/
structure Result where
  name : String
  description : String
  outcome : Outcome
deriving DecidableEq, Repr

/-- All that is kept of a step. -/
structure Record where
  invocation : Invocation
  /-- The description of the command of that name, empty if there is none. -/
  description : String
  conduct : Conduct
  /-- The run stopped at this step. -/
  stops : Bool

namespace Conduct

/-- The name under which a step is listed. -/
def name (inv : Invocation) : Conduct → String
  | .short command => command.name
  | .ran command _ _ => command.name
  | _ => inv.name

/-- The outcome of an invocation that this happened to. -/
def outcome (inv : Invocation) : Conduct → Outcome
  | .skipped => ⟨.skipped, none⟩
  | .cancelled => .error "cancelled"
  | .unknown => .error (CatalogError.unknown inv.name).message
  | .short command =>
    .error s!"expects at least {command.minArguments} argument(s), got {inv.arguments.length}"
  | .ran command _ effect => effect.ending.outcome command.name

/-- What the body of a step put out. -/
def output : Conduct → List Output
  | .ran _ _ effect => effect.output
  | _ => []

end Conduct

namespace Record

/-- The name under which the step is listed. -/
def name (r : Record) : String := r.conduct.name r.invocation

/-- The outcome of the step. -/
def outcome (r : Record) : Outcome := r.conduct.outcome r.invocation

/-- The status of the step. -/
def status (r : Record) : Status := r.outcome.status

/-- What is shown of the step. -/
def result (r : Record) : Result := ⟨r.name, r.description, r.outcome⟩

/-- The texts that the step has reported, in their order. -/
def reports (r : Record) : List String :=
  r.conduct.output.filterMap fun
    | .report text => some text
    | _ => none

/-- The time that the step has waited, in nanoseconds. -/
def waited (r : Record) : Nat :=
  r.conduct.output.foldl (fun total output =>
    match output with
    | .wait nanoseconds => total + nanoseconds
    | _ => total) 0

end Record

/-! ## Arguments as variables -/

namespace Store

/-- Hands the arguments of an invocation to its command. All texts are made from the store as it is;
then the arguments of an earlier step that had more of them go, and the new ones are set. -/
def bind (s : Store) (bound : Nat) (inv : Invocation) : Store :=
  let n := inv.arguments.length
  let stale := (List.range' n (bound - n)).map argumentName
  let cleared := stale.foldl erase s
  (cleared.set argumentCountName (.int n)).setAll
    ((inv.bindings s.text?).map fun (name, text) => (name, .text text))

end Store

/-! ## The engine -/

/-- The time that passes at the points of a run other than its waits: as a step is taken up, between
the look at the cancellation and the body, and between the body and the second look. -/
structure Pace where
  arriving : Nat → Nat
  entering : Nat → Nat
  leaving : Nat → Nat

/-- Nothing but waiting takes time. -/
def Pace.instant : Pace := ⟨fun _ => 0, fun _ => 0, fun _ => 0⟩

/-- What a run is made with. -/
structure Engine where
  catalog : Catalog
  policy : Policy := .abort
  pace : Pace := .instant

/-- Where a run stands between two steps. -/
structure Progress where
  env : Env
  /-- How many arguments the last step bound. -/
  bound : Nat
  stopped : Bool
  /-- How many invocations have been taken up. -/
  taken : Nat

namespace Progress

/-- The start of a run; arguments that an earlier run has left are still bound. -/
def start (env : Env) : Progress := ⟨env, env.argumentCount, false, 0⟩

end Progress

namespace Engine

/-- The description of the command of a name, empty if there is none. -/
def description (engine : Engine) (name : String) : String :=
  ((engine.catalog.find? name).map (·.description)).getD ""

/-- Does one invocation of a run that is not cancelled: what happens to it, and the surroundings and
the number of bound arguments afterwards. -/
def attempt (engine : Engine) (p : Progress) (inv : Invocation) : Conduct × Env × Nat :=
  match engine.catalog.find? inv.name with
  | none => (.unknown, p.env, p.bound)
  | some command =>
    if inv.arguments.length < command.minArguments then (.short command, p.env, p.bound)
    else
      let env : Env := { p.env with store := p.env.store.bind p.bound inv }
      let env := env.elapse (engine.pace.entering p.taken)
      let effect := command.body env
      (.ran command env effect, effect.env env, inv.arguments.length)

/-- Takes up one invocation. -/
def step (engine : Engine) (p : Progress) (inv : Invocation) : Record × Progress :=
  let description := engine.description inv.name
  if p.stopped then
    (⟨inv, description, .skipped, false⟩, { p with taken := p.taken + 1 })
  else
    let p := { p with env := p.env.elapse (engine.pace.arriving p.taken) }
    if p.env.cancelled then
      (⟨inv, description, .cancelled, true⟩, { p with stopped := true, taken := p.taken + 1 })
    else
      let (conduct, env, bound) := engine.attempt p inv
      let env := env.elapse (engine.pace.leaving p.taken)
      let passed := (conduct.outcome inv).status.isPass
      let stops := env.cancelled || (engine.policy == .abort && !passed)
      (⟨inv, description, conduct, stops⟩, ⟨env, bound, stops, p.taken + 1⟩)

/-- Takes up invocations one after the other. -/
def steps (engine : Engine) (p : Progress) : List Invocation → List Record × Progress
  | [] => ([], p)
  | inv :: invs =>
    let (record, next) := engine.step p inv
    let (records, last) := engine.steps next invs
    (record :: records, last)

end Engine

/-- The account of a run. -/
structure Run where
  records : List Record
  /-- The run stopped before its end, or at its last step. -/
  aborted : Bool
  env : Env

namespace Engine

/-- Runs invocations from the beginning to the end of a run. -/
def execute (engine : Engine) (env : Env) (invs : List Invocation) : Run :=
  let (records, last) := engine.steps (.start env) invs
  ⟨records, last.stopped, last.env.elapse (engine.pace.arriving last.taken)⟩

end Engine

namespace Run

/-- The results of the steps, in the order of the invocations. -/
def results (r : Run) : List Result := r.records.map Record.result

/-- The statuses of the steps, in the order of the invocations. -/
def statuses (r : Run) : List Status := r.records.map Record.status

/-- The most severe status of a step, `pass` if there is none. -/
def verdict (r : Run) : Status := Status.verdict r.statuses

/-- All texts that the run has reported, in their order. -/
def reports (r : Run) : List String := r.records.flatMap Record.reports

/-- The time that the run has waited, in nanoseconds. -/
def waited (r : Run) : Nat := r.records.foldl (fun total record => total + record.waited) 0

end Run

end Runbook
