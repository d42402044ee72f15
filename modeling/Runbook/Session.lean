import Runbook.Run.Event
import Runbook.Sink

/-!
# Sessions

A session owns a store, a sink and a token by which its runs are cancelled. Consecutive scripts
share the store. A token that is cancelled stops the current run and those to come until it is reset
or renewed; a handle on a token that has been renewed since reaches no run of the session.

A run with a time limit gets a fresh token; when the limit strikes, the token is cancelled until the
run has stopped, and only for that run.
-/

namespace Runbook

/-- The means of cancelling the runs of a session; each renewal has the next serial number. -/
structure Cancellation where
  serial : Nat
  cancelled : Bool
deriving DecidableEq, Repr

namespace Cancellation

/-- The token of a session that has not been cancelled yet. -/
def first : Cancellation := ⟨0, false⟩

/-- A fresh token in the place of another. -/
def renew (t : Cancellation) : Cancellation := ⟨t.serial + 1, false⟩

/-- Cancels the token with the serial number; the present one is another after a renewal. -/
def cancelSerial (t : Cancellation) (serial : Nat) : Cancellation :=
  if t.serial = serial then { t with cancelled := true } else t

end Cancellation

/-- Variables, sink and token of one workspace. -/
structure Session where
  id : String
  store : Store
  sink : Sink
  token : Cancellation

namespace Session

/-- A session without variables. -/
def start (id : String) (sink : Sink) : Session := ⟨id, ∅, sink, .first⟩

/-- What the first command of a run finds. -/
def env (s : Session) (limit : Option Nat) : Env := ⟨s.id, s.store, s.token.cancelled, limit⟩

/-- The session that an execution leaves: the variables, the reports in the sink, and the present
token cancelled or not. -/
def after (s : Session) (e : Execution) : Session :=
  { s with
    store := e.env.store
    sink := s.sink.reportAll e.reports
    token := { s.token with cancelled := e.env.cancelled } }

/-- The events of an execution in the session as the log shows them; a report is an event only if
the sink writes it to the log. -/
def events (s : Session) (engine : Engine) (e : Execution) : List Event :=
  .started engine.policy :: e.events.filter fun
    | .reported _ => s.sink == .log
    | _ => true

/-- Runs a script without a time limit. -/
def run (s : Session) (engine : Engine) (source : String) : Execution × Session :=
  let e := engine.run (s.env none) source
  ({ e with events := s.events engine e }, s.after e)

/-- Runs a script with a time limit in nanoseconds. The cancellation of a limit that has struck is
cleared after the run. -/
def runWithin (s : Session) (engine : Engine) (limit : Nat) (source : String) :
    Execution × Session :=
  let s := { s with token := s.token.renew }
  let e := engine.run (s.env (some limit)) source
  let next := s.after e
  let struck := e.env.remaining.isNone
  ({ e with events := s.events engine e },
    if struck then { next with token := { next.token with cancelled := false } } else next)

/-! ## Several sessions -/

/-- Runs scripts in sessions of their own, all with one engine; the results come in the order of the
jobs. -/
def runAll (engine : Engine) (jobs : List (Session × String)) : List (Execution × Session) :=
  jobs.map fun (s, source) => s.run engine source

end Session

/-! ## Dealing with a session -/

/-- What an owner of a session may do with it, apart from looking. -/
inductive Request where
  | run (policy : Policy) (source : String)
  | runWithin (policy : Policy) (nanoseconds : Nat) (source : String)
  | cancel
  /-- Clears the cancellation of the present token. -/
  | reset
  /-- Puts a fresh token in the place of the present one. -/
  | renew
  /-- Takes a handle on the present token. -/
  | hold
  /-- Cancels the token on which a handle was taken. -/
  | cancelHeld
  | set (name : String) (value : Value)
  | unset (name : String)
  | setAll (pairs : List (String × Value))

/-- A session with the handle that its owner has taken, if any. -/
structure Desk where
  session : Session
  held : Option Nat

namespace Desk

/-- A session on which no handle has been taken. -/
def start (session : Session) : Desk := ⟨session, none⟩

/-- Changes the present token. -/
def withToken (d : Desk) (change : Cancellation → Cancellation) : Desk :=
  { d with session := { d.session with token := change d.session.token } }

/-- Changes the variables. -/
def withStore (d : Desk) (change : Store → Store) : Desk :=
  { d with session := { d.session with store := change d.session.store } }

/-- Does what is asked for; a run leaves its execution. -/
def serve (d : Desk) (catalog : Catalog) : Request → Option Execution × Desk
  | .run policy source =>
    let (e, session) := d.session.run { catalog, policy } source
    (some e, { d with session })
  | .runWithin policy nanoseconds source =>
    let (e, session) := d.session.runWithin { catalog, policy } nanoseconds source
    (some e, { d with session })
  | .cancel => (none, d.withToken fun t => { t with cancelled := true })
  | .reset => (none, d.withToken fun t => { t with cancelled := false })
  | .renew => (none, d.withToken Cancellation.renew)
  | .hold => (none, { d with held := some d.session.token.serial })
  | .cancelHeld =>
    (none, match d.held with
      | some serial => d.withToken fun t => t.cancelSerial serial
      | none => d)
  | .set name value => (none, d.withStore fun s => s.set name value)
  | .unset name => (none, d.withStore fun s => s.erase name)
  | .setAll pairs => (none, d.withStore fun s => s.setAll pairs)

end Desk

end Runbook
