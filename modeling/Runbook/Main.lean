import Runbook.Program

/-!
# The command

Reads what the program may need from the system, lets `Program.run` decide, and does what it says:
wait, write, and exit.
-/

namespace Runbook

namespace Main

/-- All bytes of the standard input. -/
partial def readAll (stream : IO.FS.Stream) (bytes : ByteArray) : IO ByteArray := do
  let chunk ← stream.read 65536
  if chunk.isEmpty then return bytes else readAll stream (bytes ++ chunk)

/-- The number of a system error, which can come with either sign. -/
def errorNumber (code : UInt32) : UInt32 := min code (0 - code)

/-- The reason for which the system refuses a file. -/
def fileError : IO.Error → FileError
  | .noFileOrDirectory .. => .missing
  | .inappropriateType _ code _ =>
    if errorNumber code = 21 then .isDirectory else .notDirectory
  | e@(.invalidArgument _ code _) =>
    if errorNumber code = 36 then .nameTooLong else .other (toString e)
  | .permissionDenied .. => .other "Permission denied (os error 13)"
  | e => .other (toString e)

/-- The bytes of a file, or the reason why it cannot be read. -/
def readFile (path : String) : IO (Except FileError ByteArray) := do
  try
    return .ok (← IO.FS.readBinFile path)
  catch e =>
    return .error (fileError e)

/-- What the program finds, for the paths that it may read. -/
def host (arguments : Arguments) : IO Host := do
  let settings ← IO.getEnv Program.settingsVariable
  let home ← IO.getEnv Program.homeVariable
  let mut found : List (String × Except FileError ByteArray) := []
  for path in Program.paths arguments settings home do
    found := (path, ← readFile path) :: found
  let stdin ←
    if arguments.scriptSource = .stdin then readAll (← IO.getStdin) .empty else pure .empty
  return {
    files := fun path => (found.lookup path).getD (.error .missing)
    stdin
    lookup := fun name =>
      if name = Program.settingsVariable then settings
      else if name = Program.homeVariable then home
      else none }

/-- The exit for a command line that is not taken. -/
def refuse (e : UsageError) : IO UInt32 := do
  match e with
  | .help | .version =>
    IO.println "Run line-oriented automation scripts"
    return 0
  | .limitTooLong => return Program.brokenCode.toUInt32
  | _ =>
    IO.eprintln "the arguments are not understood"
    return Report.notRunCode.toUInt32

end Main

end Runbook

open Runbook in
/-- Runs the program on its command line. -/
def main (texts : List String) : IO UInt32 := do
  match Arguments.read texts with
  | .error e => Main.refuse e
  | .ok arguments =>
    let exit := Program.run arguments (← Main.host arguments)
    IO.eprint exit.stderr
    IO.sleep (exit.waited / 1000000).toUInt32
    IO.print exit.stdout
    return exit.code.toUInt32
