import Runbook.Span
import Runbook.Status

/-!
# The command line

Arguments are read from left to right. An option takes its value after an equals sign, glued to its
letter, or as the next argument; letters of flags may stand together behind one dash; after `--`
everything is the script. `Arguments` is what has been understood, and `Reading` what is still open.

`Arguments.read` is the reader with which the program runs. What the program does with `Arguments`
does not depend on how they have been read.

An occurrence of an option is *concluded* only when something else begins, because its value may
still come. So an unknown flag right after a bad value is reported as the unknown flag.
-/

namespace Runbook

/-- What an argument can give. -/
inductive Key where
  | config
  | command
  | script
  | timeout
  | define
  | keepGoing
  | noConfig
  | json
  | list
  | verbose
  | help
  | version
deriving DecidableEq, Repr

namespace Key

/-- An occurrence of the key needs a value. -/
def takesValue : Key → Bool
  | .config | .command | .script | .timeout | .define => true
  | _ => false

/-- The key may be given more than once. -/
def isRepeatable : Key → Bool
  | .define | .verbose => true
  | _ => false

/-- The key of a letter. -/
def ofLetter? : Char → Option Key
  | 'f' => some .config
  | 'c' => some .command
  | 't' => some .timeout
  | 'D' => some .define
  | 'k' => some .keepGoing
  | 'v' => some .verbose
  | 'h' => some .help
  | 'V' => some .version
  | _ => none

/-- The key of a long name, which must be complete. -/
def ofLong? : String → Option Key
  | "config" => some .config
  | "command" => some .command
  | "timeout" => some .timeout
  | "define" => some .define
  | "keep-going" => some .keepGoing
  | "no-config" => some .noConfig
  | "json" => some .json
  | "list" => some .list
  | "verbose" => some .verbose
  | "help" => some .help
  | "version" => some .version
  | _ => none

end Key

/-- Why arguments are not taken. -/
inductive UsageError where
  | unknownArgument
  /-- A value is given to a flag. -/
  | tooManyValues
  /-- A value is missing, or a path is empty. -/
  | invalidValue
  /-- A value is refused for a reason of its own. -/
  | refusedValue (reason : String)
  | conflict
  | help
  | version
  /-- A time limit is too long for a span; nothing is reported in the usual way. -/
  | limitTooLong
deriving DecidableEq, Repr

/-- What has been understood of a command line. -/
structure Arguments where
  given : List Key := []
  config : String := ""
  command : String := ""
  script : String := ""
  timeout : Option Span := none
  defines : List (String × String) := []
  /-- How often more logging is asked for, 255 at most. -/
  verbose : Nat := 0
deriving DecidableEq, Repr

namespace Arguments

/-- The key has been given. -/
def has (a : Arguments) (key : Key) : Bool := a.given.contains key

/-- A definition `name=value` with a name that is not empty. -/
def readDefine (text : String) : Except String (String × String) :=
  let cs := text.toList
  let name := cs.takeWhile (· ≠ '=')
  match cs.dropWhile (· ≠ '=') with
  | [] => .error s!"`{text}` is not of the form NAME=VALUE"
  | _ :: value =>
    if name = [] then .error s!"`{text}` is not of the form NAME=VALUE"
    else .ok (String.ofList name, String.ofList value)

/-- A time limit: a positive number of seconds that fits a span. -/
def readLimit (text : String) : Except UsageError Span :=
  match Span.read text with
  | .ok span => .ok span
  | .error .notPositive =>
    .error (.refusedValue s!"`{text}` is not a positive number of seconds")
  | .error .tooLong => .error .limitTooLong

/-- A path, which is not empty. -/
def readPath (text : String) : Except UsageError String :=
  if text = "" then .error .invalidValue else .ok text

/-- Takes up the value of a key. -/
def store (a : Arguments) (key : Key) (value : String) : Except UsageError Arguments :=
  match key with
  | .config => return { a with config := ← readPath value }
  | .script => return { a with script := ← readPath value }
  | .command => return { a with command := value }
  | .timeout => return { a with timeout := some (← readLimit value) }
  | .define =>
    match readDefine value with
    | .ok pair => return { a with defines := a.defines ++ [pair] }
    | .error reason => throw (.refusedValue reason)
  | .verbose => return { a with verbose := min 255 (a.verbose + 1) }
  | .help => throw .help
  | .version => throw .version
  | .keepGoing | .noConfig | .json | .list => return a

/-- Concludes an occurrence of a key, whose value may be missing. -/
def conclude (a : Arguments) (key : Key) (value : Option String) : Except UsageError Arguments :=
  if key.takesValue && value.isNone then throw .invalidValue
  else if a.has key && !key.isRepeatable then throw .conflict
  else do
    let a ← a.store key (value.getD "")
    return { a with given := key :: a.given }

end Arguments

/-- Where the reading of a command line stands. -/
structure Reading where
  arguments : Arguments := {}
  /-- The occurrence that is not concluded yet, with its value if it has come. -/
  pending : Option (Key × Option String) := none
  hasScript : Bool := false
deriving DecidableEq, Repr

namespace Reading

/-- Concludes what is pending. -/
def settle (r : Reading) : Except UsageError Reading := do
  match r.pending with
  | none => return r
  | some (key, value) =>
    return { r with arguments := ← r.arguments.conclude key value, pending := none }

/-- Stops at an error. What is pending is concluded first; of its own errors only a time limit that
is too long comes before the given one. -/
def stop {α : Type} (r : Reading) (e : UsageError) : Except UsageError α :=
  match r.settle with
  | .error .limitTooLong => .error .limitTooLong
  | _ => .error e

/-- A key with the value that came with it. -/
def accept (r : Reading) (key : Key) (value : Option String) : Except UsageError Reading := do
  let r ← r.settle
  if key.takesValue && value.isNone then return { r with pending := some (key, none) }
  else return { r with arguments := ← r.arguments.conclude key value }

/-- An argument that is no option: the value of the one before it, or the script. -/
def word (r : Reading) (text : String) : Except UsageError Reading :=
  match r.pending with
  | some (key, none) => return { r with pending := some (key, some text) }
  | _ => script r text
where
  /-- The script, which can be named once. -/
  script (r : Reading) (text : String) : Except UsageError Reading := do
    if r.hasScript then r.stop .unknownArgument
    else
      let r ← r.settle
      return { r with pending := some (.script, some text), hasScript := true }

/-- An argument behind `--`. -/
def script (r : Reading) (text : String) : Except UsageError Reading := word.script r text

/-- An argument that starts with two dashes, which are left off. -/
def long (r : Reading) (cs : List Char) : Except UsageError Reading :=
  let name := String.ofList (cs.takeWhile (· ≠ '='))
  let value := match cs.dropWhile (· ≠ '=') with
    | [] => none
    | _ :: value => some (String.ofList value)
  match Key.ofLong? name with
  | none => r.stop .unknownArgument
  | some key =>
    if !key.takesValue && value.isSome then r.stop .tooManyValues else r.accept key value

/-- Letters behind one dash. The first that takes a value takes what follows it, without an equals
sign in front. -/
def letters (r : Reading) : List Char → Except UsageError Reading
  | [] => .ok r
  | c :: cs =>
    match Key.ofLetter? c with
    | none => r.stop .unknownArgument
    | some key =>
      if key.takesValue then
        match cs with
        | [] => r.accept key none
        | d :: ds => r.accept key (some (String.ofList (if d = '=' then ds else d :: ds)))
      else do
        let r ← r.accept key none
        r.letters cs

/-- Goes through the arguments from left to right, and concludes what is pending at their end. -/
def scan (r : Reading) : List String → Except UsageError Reading
  | [] => r.settle
  | text :: texts => do
    match text.toList with
    | '-' :: '-' :: [] => (← texts.foldlM script r).settle
    | '-' :: '-' :: cs => (← r.long cs).scan texts
    | '-' :: c :: cs => (← r.letters (c :: cs)).scan texts
    | _ => (← r.word text).scan texts

end Reading

namespace Arguments

/-- Reads a command line without the name of the program. -/
def read (texts : List String) : Except UsageError Arguments := do
  let r ← Reading.scan {} texts
  let a := r.arguments
  if (a.has .noConfig && a.has .config) || (a.has .command && a.has .script) then throw .conflict
  return a

end Arguments

/-! ## What the arguments ask for -/

/-- Where the settings come from. -/
inductive ConfigSource where
  /-- Those found in the usual places. -/
  | search
  | skip
  | file (path : String)
deriving DecidableEq, Repr

/-- Where the script comes from. -/
inductive ScriptSource where
  | stdin
  | command (text : String)
  | file (path : String)
deriving DecidableEq, Repr

namespace Arguments

/-- Where to look for settings; to skip them goes before a file that is named. -/
def configSource (a : Arguments) : ConfigSource :=
  if a.has .noConfig then .skip else if a.has .config then .file a.config else .search

/-- The script to run; a single dash is the standard input. -/
def scriptSource (a : Arguments) : ScriptSource :=
  if a.has .command then .command a.command
  else if a.has .script && a.script ≠ "-" then .file a.script
  else .stdin

/-- The policy asked for, if one is; there is no way to ask for aborting. -/
def policy (a : Arguments) : Option Policy :=
  if a.has .keepGoing then some .proceed else none

end Arguments

end Runbook
