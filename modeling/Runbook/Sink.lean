/-!
# Status sinks

Where reported status texts go. A sink may keep all of them, or only the present one; the latter can
be watched by a receiver, which knows whether there has been a report since it last looked.
-/

namespace Runbook

/-- Where reported texts go. -/
inductive Sink where
  /-- Keeps every text, in order. -/
  | recording (history : List String)
  /-- Keeps the last text. -/
  | watch (current : String)
  /-- Writes each text to the log. -/
  | log
  | discard
deriving DecidableEq, Repr

namespace Sink

/-- A sink that records, before the first report. -/
def recorder : Sink := .recording []

/-- A sink that can be watched, before the first report. -/
def watcher : Sink := .watch ""

/-- Takes a text up; what becomes of it is a matter of the sink. -/
def report (text : String) : Sink → Sink
  | .recording history => .recording (history ++ [text])
  | .watch _ => .watch text
  | .log => .log
  | .discard => .discard

/-- Takes texts up one after the other. -/
def reportAll (s : Sink) (texts : List String) : Sink := texts.foldl (fun s t => s.report t) s

theorem reportAll_append (s : Sink) (xs ys : List String) :
    s.reportAll (xs ++ ys) = (s.reportAll xs).reportAll ys :=
  List.foldl_append

theorem reportAll_recording (history texts : List String) :
    (recording history).reportAll texts = recording (history ++ texts) := by
  induction texts generalizing history with
  | nil => rw [List.append_nil]; rfl
  | cons text texts ih =>
    rw [← List.singleton_append, ← List.append_assoc, ← ih]
    rfl

/-- The recorded texts, which are none if the sink does not record. -/
def history : Sink → List String
  | .recording history => history
  | _ => []

/-- The last of the recorded texts. -/
def last? (s : Sink) : Option String := s.history.getLast?

/-- The present text of a watched sink, empty before the first report. -/
def current : Sink → String
  | .watch current => current
  | _ => ""

/-- The texts that an observer of the session sees: all that are recorded, or the present one. -/
def shown : Sink → List String
  | .recording history => history
  | .watch current => [current]
  | _ => []

end Sink

/-- A watched text with one receiver. -/
structure Watch where
  current : String
  reports : Nat
  /-- The number of reports at the receiver's last look, if there is a receiver. -/
  seen : Option Nat
deriving DecidableEq, Repr

namespace Watch

/-- A watched text before the first report. -/
def start : Watch := ⟨"", 0, none⟩

/-- A new text, even if it equals the present one, is news to the receiver. -/
def report (w : Watch) (text : String) : Watch :=
  { w with current := text, reports := w.reports + 1 }

/-- A new receiver takes the place of the former; it has seen the present text. -/
def subscribe (w : Watch) : Watch := { w with seen := some w.reports }

/-- The receiver, if there is one, has not seen the present text. -/
def changed? (w : Watch) : Option Bool := w.seen.map (· ≠ w.reports)

/-- The receiver, if there is one, looks at the present text. -/
def observe (w : Watch) : Option String × Watch :=
  match w.seen with
  | some _ => (some w.current, w.subscribe)
  | none => (none, w)

end Watch

end Runbook
