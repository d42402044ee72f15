import Runbook.Log
import Runbook.Span
import Runbook.Status
import Runbook.Store
import Runbook.Text.Words

/-!
# Presets

A text of settings presets the policy, the time limit, the log filter and the variables of runs, one
setting on a line. Blank lines and lines that start with a semicolon say nothing, and a line whose
first word is no setting is passed over. A line with an error leaves every setting as it is. The one
thing that ends the reading is a time limit too long for a span.
-/

namespace Runbook

/-- What a text of settings presets. -/
structure Preset where
  policy : Option Policy
  limit : Option Span
  log : Option String
  store : Store

/-- What a line of settings can set. -/
inductive Setting where
  | policy (policy : Policy)
  | limit (span : Span)
  | log (filter : String)
  | variable (name value : String)
deriving DecidableEq, Repr

/-- What can be wrong with the arguments of a directive. -/
inductive SettingError where
  | noArgument (directive : String)
  | manyArguments (directive : String) (count : Nat)
  /-- The word, in small letters, names no policy. -/
  | unknownPolicy (word : String)
  | notPositive (text : String)
  | missingValue (name : String)
  | emptyName
deriving DecidableEq, Repr

namespace SettingError

/-- The words in which an error is reported, the directive first. -/
def message : SettingError → String
  | .noArgument directive => directive ++ ": requires an argument"
  | .manyArguments directive count =>
    directive ++ ": expected one argument, got " ++ toString count
  | .unknownPolicy word => Policy.unknownMessage word
  | .notPositive text => s!"timeout: `{text}` is not a positive number of seconds"
  | .missingValue name => "set: missing value for '" ++ name ++ "'"
  | .emptyName => "set: variable name cannot be empty"

end SettingError

/-- What a line says. -/
inductive PresetLine where
  | nothing
  /-- The first word is no setting. -/
  | unknown (directive : String)
  | wrong (error : SettingError)
  | setting (setting : Setting)
  /-- A time limit that no span holds. -/
  | tooLong
deriving DecidableEq, Repr

namespace PresetLine

/-- The line of a setting or its error. -/
def ofSetting : Except SettingError Setting → PresetLine
  | .ok s => .setting s
  | .error e => .wrong e

/-- The only argument of a directive. -/
def single (directive : String) : List String → Except SettingError String
  | [argument] => .ok argument
  | [] => .error (.noArgument directive)
  | arguments => .error (.manyArguments directive arguments.length)

/-- A text before and after its first equals sign, if it has one. -/
def splitEquals (cs : List Char) : Option (String × String) :=
  match cs.dropWhile (· ≠ '=') with
  | [] => none
  | _ :: value => some (String.ofList (cs.takeWhile (· ≠ '=')), String.ofList value)

/-- A policy takes one argument, a word for it in letters of either case. -/
def policySetting (arguments : List String) : Except SettingError Setting := do
  let word ← single "policy" arguments
  match Policy.ofWord word with
  | .ok policy => return .policy policy
  | .error word => throw (.unknownPolicy word)

/-- A time limit takes one argument, a positive number of seconds. -/
def limitSetting (arguments : List String) : PresetLine :=
  match single "timeout" arguments with
  | .error e => .wrong e
  | .ok text =>
    match Span.read text with
    | .ok span => .setting (.limit span)
    | .error .notPositive => .wrong (.notPositive text)
    | .error .tooLong => .tooLong

/-- The setting of a variable: `name=value` in the first argument, or a name and the words of its
value. -/
def variableSetting (arguments : List String) : Except SettingError Setting := do
  let (name, value) ← match arguments with
    | [] => throw (.noArgument "set")
    | first :: others =>
      match splitEquals first.toList with
      | some pair => pure pair
      | none =>
        if others = [] then throw (.missingValue first)
        else pure (first, " ".intercalate others)
  if name = "" then throw .emptyName
  return .variable name value

/-- The first word of a line. -/
def directive (line : List Char) : String :=
  String.ofList (line.takeWhile fun c => !Text.isAsciiBlank c)

/-- The words of a line behind the first. -/
def arguments (line : List Char) : List String :=
  Text.words (Text.trim ((line.dropWhile fun c => !Text.isAsciiBlank c).drop 1))

/-- What a directive says with its arguments. -/
def ofArguments (directive : String) (arguments : List String) : PresetLine :=
  match directive with
  | "policy" => ofSetting (policySetting arguments)
  | "timeout" => limitSetting arguments
  | "log" => ofSetting ((single "log" arguments).map .log)
  | "set" => ofSetting (variableSetting arguments)
  | _ => .unknown directive

/-- What a line says that is neither blank nor a comment and has no blanks at its ends. -/
def ofDirective (line : List Char) : PresetLine := ofArguments (directive line) (arguments line)

/-- What a line says. A line that is blank or starts with a semicolon says nothing. -/
def ofChars (line : List Char) : PresetLine :=
  match Text.trim line with
  | [] => .nothing
  | c :: cs => if c = ';' then .nothing else ofDirective (c :: cs)

end PresetLine

namespace Preset

/-- No setting at all. -/
def none : Preset := ⟨.none, .none, .none, ∅⟩

/-- Takes a setting up in the place of an earlier one of its kind, a variable in the place of one
with its name. -/
def apply (p : Preset) : Setting → Preset
  | .policy policy => { p with policy := some policy }
  | .limit span => { p with limit := some span }
  | .log filter => { p with log := some filter }
  | .variable name value => { p with store := p.store.set name (.text value) }

end Preset

/-- What a text of settings gives. -/
structure Preset.Loaded where
  preset : Preset
  /-- The errors with the numbers of their lines. -/
  errors : List (Nat × SettingError)
  /-- The directives that were passed over, with the numbers of their lines. -/
  unknown : List (Nat × String)

/-- The time limit in a line is too long for a span. -/
structure Preset.Overflow where
  line : Nat
deriving DecidableEq, Repr

namespace Preset

/-- Reads lines, the first of which has the given number, on top of what is preset. -/
def readLines (p : Preset) (line : Nat) : List PresetLine → Except Overflow Loaded
  | [] => .ok ⟨p, [], []⟩
  | .nothing :: lines => p.readLines (line + 1) lines
  | .unknown directive :: lines => do
    let loaded ← p.readLines (line + 1) lines
    return { loaded with unknown := (line, directive) :: loaded.unknown }
  | .wrong e :: lines => do
    let loaded ← p.readLines (line + 1) lines
    return { loaded with errors := (line, e) :: loaded.errors }
  | .setting setting :: lines => (p.apply setting).readLines (line + 1) lines
  | .tooLong :: _ => .error ⟨line⟩

/-- Reads a text of settings line by line. Bad lines are listed and change nothing, but a time limit
that no span holds ends the reading. -/
def load (text : String) : Except Overflow Loaded :=
  Preset.none.readLines 1 ((Text.lines text.toList).map PresetLine.ofChars)

/-- The log entry for a directive that is passed over. -/
def unknownEntry (line : Nat) (directive : String) : LogEntry :=
  ⟨"DEBUG", "autoscript::config", "skipping unknown directive",
    [("line", toString line), ("directive", directive)]⟩

/-- The wording of an error in a line. -/
def lineMessage (line : Nat) (e : SettingError) : String := s!"line {line}: {e.message}"

end Preset

end Runbook
