import Runbook.CommandLine
import Runbook.FileTree
import Runbook.Preset
import Runbook.Report
import Runbook.Session

/-!
# The program

The program reads its settings and its script, runs the script in a session of its own, and reports.
What it finds outside is a value, `Host`, and what it leaves is a value, `Exit`; so the whole
program is a function of the command line and the host.

A script or a settings file that cannot be read, and a text that is no script, end the program with
the exit code of a run that did not take place.
-/

namespace Runbook

/-- What the program finds outside. -/
structure Host where
  files : Files
  stdin : ByteArray
  /-- The value of a variable of the environment. -/
  lookup : String → Option String

/-- What the program leaves. -/
structure Exit where
  code : Nat
  stdout : String := ""
  stderr : String := ""
  waited : Nat := 0
deriving DecidableEq, Repr

namespace Program

/-- The exit code of a program that breaks down. -/
def brokenCode : Nat := 101

/-- What the program's own lines on the error output start with. -/
def mark : String := "autoscript: "

/-- Words of the program on the error output. -/
def complaint (text : String) : String := mark ++ text

/-- The words of a warning about a line of a settings file. -/
def warning (path : String) (line : Nat) (e : SettingError) : String :=
  complaint ("warning: " ++ path ++ ": " ++ Preset.lineMessage line e)

/-- The exit of a program that has not run its script, for a reason, with other lines before it. -/
def notRun (before : List String) (reason : String) : Exit :=
  { code := Report.notRunCode, stderr := Report.unlines (before ++ [complaint reason]) }

/-! ## Settings -/

/-- The variable of the environment that names a file of settings. -/
def settingsVariable : String := "AUTOSCRIPT_CONFIG"

/-- The variable of the environment that names the user's home directory. -/
def homeVariable : String := "HOME"

/-- The usual places of settings, in the order in which they are looked at. -/
def usualPlaces (home : Option String) : List String :=
  [home.getD "" ++ "/.autoscriptrc", "./autoscript.conf"]

/-- The settings file to read, if there is one. A file that is named need not exist. -/
def settingsPath (host : Host) : ConfigSource → Option String
  | .skip => none
  | .file path => some path
  | .search =>
    match host.lookup settingsVariable with
    | some path => some path
    | none => (usualPlaces (host.lookup homeVariable)).find? host.files.has

/-- Reads the settings: the preset with warnings, or the exit that ends the program. -/
def settings (host : Host) (source : ConfigSource) : Except Exit (Preset × List String) :=
  match settingsPath host source with
  | none => .ok (.none, [])
  | some path =>
    match host.files.readText path with
    | .error e => .error (notRun [] (path ++ ": " ++ e.message))
    | .ok text =>
      match Preset.load text with
      | .error _ => .error { code := brokenCode }
      | .ok loaded =>
        .ok (loaded.preset, loaded.errors.map fun (line, e) => warning path line e)

/-! ## Script -/

/-- Reads the script, or gives the reason why it cannot be read. -/
def script (host : Host) : ScriptSource → Except String String
  | .command text => .ok text
  | .file path => (host.files.readText path).mapError fun e => path ++ ": " ++ e.message
  | .stdin => (decodeText host.stdin).mapError fun e => "stdin: " ++ e.message

/-! ## Running -/

/-- The commands, one in a line, by their names. -/
def listing : String :=
  Report.unlines (Catalog.standard.sorted.map fun c =>
    Text.pad .left ' ' 14 c.name ++ " " ++ c.description)

/-- The session of the program: the preset variables, then those defined on the command line. -/
def session (arguments : Arguments) (preset : Preset) : Session :=
  let s := Session.start "cli" .recorder
  { s with
    store := (s.store.setAll preset.store.toList).setAll
      (arguments.defines.map fun (name, value) => (name, .text value)) }

/-- The engine of the program: the command line goes before the preset. -/
def engine (arguments : Arguments) (preset : Preset) : Engine where
  catalog := .standard
  policy := (arguments.policy.or preset.policy).getD .abort

/-- Runs a script, with the time limit of the command line or else of the preset. -/
def execution (arguments : Arguments) (preset : Preset) (source : String) : Execution :=
  let s := session arguments preset
  let engine := engine arguments preset
  match arguments.timeout.or preset.limit with
  | some limit => (s.runWithin engine limit.nanoseconds source).1
  | none => (s.run engine source).1

/-- What is left after an execution: the exit code tells the verdict, the standard output the
results. -/
def report (arguments : Arguments) (warnings : List String) (e : Execution) : Exit :=
  match e.outcome with
  | .error error => notRun warnings error.message
  | .ok run =>
    { code := Report.exitCode run.verdict
      stdout := if arguments.has .json then Report.json run else Report.text run
      stderr := Report.unlines warnings
      waited := run.waited }

/-- What the program leaves: it reads the settings, lists the commands if it is asked to, and else
runs the script and reports. -/
def run (arguments : Arguments) (host : Host) : Exit :=
  match settings host arguments.configSource with
  | .error exit => exit
  | .ok (preset, warnings) =>
    if arguments.has .list then { code := 0, stdout := listing, stderr := Report.unlines warnings }
    else
      match script host arguments.scriptSource with
      | .error reason => notRun warnings reason
      | .ok source => report arguments warnings (execution arguments preset source)

/-- The paths that the program may read. -/
def paths (arguments : Arguments) (settings home : Option String) : List String :=
  let script := match arguments.scriptSource with
    | .file path => [path]
    | _ => []
  let config := match arguments.configSource with
    | .skip => []
    | .file path => [path]
    | .search => settings.toList ++ usualPlaces home
  script ++ config

end Program

/-- The lines of the error output that start with the program's mark. A text that the program quotes
can have several lines, and then each of them is looked at by itself. -/
def Exit.complaints (exit : Exit) : List String :=
  ((Text.lines exit.stderr.toList).map String.ofList).filter (·.startsWith Program.mark)

end Runbook
