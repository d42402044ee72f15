/-!
# Log entries

An entry of the log has a level, the part of the program that it comes from, a message, and named
fields.
-/

namespace Runbook

/-- An entry of the log. -/
structure LogEntry where
  level : String
  target : String
  message : String
  fields : List (String × String)
deriving DecidableEq, Repr

end Runbook
