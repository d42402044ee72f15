/-!
# Statuses

The status of a step, and the verdict over several: the most severe status among them, and `pass`
when there are none. A failure is an expected negative outcome, an error a step that could not do
its work, and a skipped step never ran.
-/

namespace Runbook

/-- How a step ended. -/
inductive Status where
  | pass
  | fail
  | error
  | skipped
deriving DecidableEq, Repr

namespace Status

/-- The rank by which a verdict is chosen. -/
def severity : Status → Nat
  | .pass => 0
  | .skipped => 1
  | .fail => 2
  | .error => 3

/-- The status in capitals, as shown to a reader. -/
def label : Status → String
  | .pass => "PASS"
  | .fail => "FAIL"
  | .error => "ERROR"
  | .skipped => "SKIPPED"

/-- The status as a word. -/
def name : Status → String
  | .pass => "Pass"
  | .fail => "Fail"
  | .error => "Error"
  | .skipped => "Skipped"

/-- The status is that of a success. -/
def isPass (s : Status) : Bool := s == .pass

/-- The more severe of two statuses. -/
def worse (a b : Status) : Status := if a.severity ≤ b.severity then b else a

/-- The most severe of several statuses, `pass` when there are none. -/
def verdict (ss : List Status) : Status := ss.foldl worse .pass

end Status

/-- What a step reports: how it ended, and perhaps a message. -/
structure Outcome where
  status : Status
  message : Option String
deriving DecidableEq, Repr

namespace Outcome

/-- A success that needs no words. -/
def pass : Outcome := ⟨.pass, none⟩

/-- A failure, with the reason. -/
def fail (message : String) : Outcome := ⟨.fail, some message⟩

/-- An error, with the reason. -/
def error (message : String) : Outcome := ⟨.error, some message⟩

end Outcome

/-- What to do after a step that did not pass. -/
inductive Policy where
  | abort
  | proceed
deriving DecidableEq, Repr, Inhabited

namespace Policy

/-- The policy as a word. -/
def name : Policy → String
  | .abort => "Abort"
  | .proceed => "Continue"

/-- The policy that a word names, in letters of either case; otherwise the word in small letters,
which names none. -/
def ofWord (word : String) : Except String Policy :=
  match String.ofList (word.toList.map Char.toLower) with
  | "abort" => .ok .abort
  | "continue" => .ok .proceed
  | other => .error other

/-- The wording for a word that names no policy. -/
def unknownMessage (word : String) : String :=
  s!"unknown failure policy `{word}` (expected abort or continue)"

end Policy

end Runbook
