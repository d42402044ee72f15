import Runbook.Run.Event
import Runbook.Text.Padding

/-!
# Reports on a run

A run is reported either as lines of text or as one JSON object, and by an exit code. The text shows
the reported statuses, then the steps, then the verdict.
-/

namespace Runbook

namespace Report

/-! ## Text -/

/-- The line for a reported status. -/
def statusLine (text : String) : String := "status: " ++ text

/-- The line for a result: its status, its name and its message if there is one. -/
def resultLine (r : Result) : String :=
  Text.pad .left ' ' 7 r.outcome.status.label ++ " " ++ r.name ++
    match r.outcome.message with
    | some message => ": " ++ message
    | none => ""

/-- The line for the verdict, with the phase in which the run ended. -/
def verdictLine (run : Run) : String :=
  "verdict: " ++ run.verdict.label ++ " (" ++ run.state.name ++ ")"

/-- The lines of a run with the statuses that it reported. -/
def lines (run : Run) : List String :=
  run.reports.map statusLine ++ run.results.map resultLine ++ [verdictLine run]

/-- Lines as text, each with its end. -/
def unlines (ls : List String) : String := String.join (ls.map (· ++ "\n"))

/-- The report as text. -/
def text (run : Run) : String := unlines (lines run)

/-! ## JSON -/

/-- An indentation by so many levels. -/
def indent (depth : Nat) : String := String.ofList (List.replicate (2 * depth) ' ')

/-- Items between brackets, each on a line of its own at the given depth. -/
def block (opening closing : String) (depth : Nat) (items : List String) : String :=
  if items = [] then opening ++ closing
  else
    opening ++ "\n" ++
      ",\n".intercalate (items.map (indent (depth + 1) ++ ·)) ++ "\n" ++ indent depth ++ closing

/-- Items between square brackets, one in a line. -/
def array (depth : Nat) (items : List String) : String := block "[" "]" depth items

/-- Fields between curly brackets, one in a line. -/
def object (depth : Nat) (fields : List (String × String)) : String :=
  block "\x7b" "\x7d" depth (fields.map fun (key, value) => Text.json key ++ ": " ++ value)

/-- A result as JSON; a message that is missing is left out. -/
def resultJson (depth : Nat) (r : Result) : String :=
  object depth
    ([("function_name", Text.json r.name), ("function_description", Text.json r.description),
        ("status", Text.json r.outcome.status.name)] ++
      r.outcome.message.toList.map fun message => ("message", Text.json message))

/-- The report as JSON. -/
def json (run : Run) : String :=
  object 0
    [("results", array 1 (run.results.map (resultJson 2))),
      ("verdict", Text.json run.verdict.name),
      ("state", Text.json run.state.name),
      ("status_updates", array 1 (run.reports.map Text.json))] ++ "\n"

/-! ## Exit code -/

/-- The exit code for a verdict. -/
def exitCode : Status → Nat
  | .pass => 0
  | .fail => 1
  | .error => 2
  | .skipped => 3

/-- The exit code when nothing was run. -/
def notRunCode : Nat := 4

end Report

end Runbook
