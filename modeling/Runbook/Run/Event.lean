import Runbook.Log
import Runbook.Run

/-!
# The events of a run

A run goes through phases: it starts idle, parses, and for each step resolves, executes and records;
it ends completed or aborted. Every change of phase is an event, and so are the steps, their mishaps
and the lines they write. `Event.entry` is the log entry of an event.
-/

namespace Runbook

/-- What a run is doing. -/
inductive Phase where
  | idle
  | parsing
  | resolving
  | executing
  | recording
  | completed
  | aborted
deriving DecidableEq, Repr

namespace Phase

/-- The phase as a word. -/
def name : Phase → String
  | .idle => "Idle"
  | .parsing => "Parsing"
  | .resolving => "Resolving"
  | .executing => "Executing"
  | .recording => "Recording"
  | .completed => "Completed"
  | .aborted => "Aborted"

end Phase

/-- Something that happens in a session. -/
inductive Event where
  | started (policy : Policy)
  | moved (source target : Phase)
  | unparsed (error : ParseError)
  | unknown (line : Nat) (name : String)
  | failed (name reason : String)
  | crashed (name reason : String)
  | finished (line : Nat) (name : String) (status : Status)
  | written (line : String)
  | reported (text : String)
deriving DecidableEq, Repr

/-! ## Events of a step -/

namespace Conduct

/-- The phases that a step goes through before it is recorded. -/
def phases : Conduct → List Phase
  | .skipped | .cancelled => []
  | .unknown | .short _ => [.resolving]
  | .ran _ _ _ => [.resolving, .executing]

/-- What happens in a step between its last change of phase and its recording. -/
def incidents (inv : Invocation) : Conduct → List Event
  | .unknown => [.unknown inv.line inv.name]
  | .ran command _ effect =>
    (effect.output.filterMap fun
      | .report text => some (.reported text)
      | .line line => some (.written line)
      | .wait _ => none) ++
    match effect.ending with
    | .failed reason => [.failed command.name reason]
    | .crashed reason => [.crashed command.name (reason.getD "unknown panic")]
    | _ => []
  | _ => []

end Conduct

/-- The changes through phases, one after the other. -/
def Phase.moves : Phase → List Phase → List Event
  | _, [] => []
  | source, target :: targets => .moved source target :: moves target targets

namespace Record

/-- The events of a step that begins in a phase; a skipped one has none. -/
def events (source : Phase) (r : Record) : List Event :=
  match r.conduct with
  | .skipped => []
  | conduct =>
    let phases := conduct.phases
    source.moves phases ++ conduct.incidents r.invocation ++
      [.moved (phases.getLastD source) .recording,
        .finished r.invocation.line r.name r.status] ++
      if r.stops then [.moved .recording .aborted] else []

/-- The phase after a step that begins in a phase. -/
def phaseAfter (source : Phase) (r : Record) : Phase :=
  match r.conduct with
  | .skipped => source
  | _ => if r.stops then .aborted else .recording

end Record

/-- The events of steps, the first of which begins in a phase, and the phase after the last. -/
def Record.allEvents (source : Phase) : List Record → List Event × Phase
  | [] => ([], source)
  | r :: rs =>
    let (events, last) := allEvents (r.phaseAfter source) rs
    (r.events source ++ events, last)

namespace Run

/-- The phase in which the run ended. -/
def state (r : Run) : Phase := if r.aborted then .aborted else .completed

/-- The events of a run whose invocations were read in a phase. -/
def events (source : Phase) (r : Run) : List Event :=
  let (events, last) := Record.allEvents source r.records
  events ++ if r.aborted then [] else [.moved last .completed]

end Run

/-! ## Running a text -/

/-- What running a text has come to: a run or the reason why there is none, the surroundings that it
leaves, and what has happened. -/
structure Execution where
  outcome : Except ParseError Run
  env : Env
  events : List Event

namespace Execution

/-- The texts that have been reported, none if there was no run. -/
def reports (e : Execution) : List String :=
  match e.outcome with
  | .ok run => run.reports
  | .error _ => []

/-- The time that has been waited, in nanoseconds. -/
def waited (e : Execution) : Nat :=
  match e.outcome with
  | .ok run => run.waited
  | .error _ => 0

end Execution

namespace Engine

/-- Reads and runs a script; a text that is no script changes nothing. -/
def run (engine : Engine) (env : Env) (source : String) : Execution :=
  let read := Event.moved .idle .parsing
  match parse source with
  | .error error => ⟨.error error, env, [read, .unparsed error]⟩
  | .ok invs =>
    let run := engine.execute env invs
    ⟨.ok run, run.env, read :: run.events .parsing⟩

/-- Runs invocations that were read elsewhere. -/
def runInvocations (engine : Engine) (env : Env) (invs : List Invocation) : Execution :=
  let run := engine.execute env invs
  ⟨.ok run, run.env, run.events .idle⟩

end Engine

/-! ## Log entries -/

/-- Where the log places the entries of runs. -/
def runTarget : String := "autoscript::script::orchestrator"

namespace Event

/-- What the log of a session shows of an event. -/
def entry (session : String) : Event → LogEntry
  | .started policy =>
    ⟨"DEBUG", "autoscript::session", "running script",
      [("session", session), ("policy", policy.name)]⟩
  | .moved source target =>
    ⟨"TRACE", runTarget, "orchestrator state",
      [("session", session), ("from", source.name), ("to", target.name)]⟩
  | .unparsed error =>
    ⟨"WARN", runTarget, "parse failed: " ++ error.message, [("session", session)]⟩
  | .unknown line name =>
    ⟨"WARN", runTarget, (CatalogError.unknown name).message,
      [("session", session), ("line", toString line)]⟩
  | .failed name reason =>
    ⟨"WARN", runTarget, "fault: " ++ reason, [("session", session), ("function", name)]⟩
  | .crashed name reason =>
    ⟨"WARN", runTarget, "panicked: " ++ reason, [("session", session), ("function", name)]⟩
  | .finished line name status =>
    ⟨"DEBUG", runTarget, "step finished",
      [("session", session), ("line", toString line), ("function", name),
        ("status", status.label)]⟩
  | .written line => ⟨"INFO", "autoscript::script::builtins", line, [("session", session)]⟩
  | .reported text => ⟨"INFO", "autoscript::status", "status updated", [("status", text)]⟩

end Event

end Runbook
