import Runbook.Session

/-!
# Tokens as shared cells

A token is a cell with a flag. A session looks at the flag of its present token; a handle is a
second hand on the same cell, and it stays on it when a renewal makes another cell the present one.
A `Workspace` is a session with all the cells that it has had and the handles that were taken, any
number of them. What can be done with it is an `Act`, and a row of acts leaves its answers.

`Desk` keeps no more of the cells than the flag of the present one and its number, and one handle.
-/

namespace Runbook

/-- Variables, sink, tokens and handles of one session. -/
structure Workspace where
  id : String
  store : Store
  sink : Sink
  /-- The flags of all tokens, in the order in which they were made. -/
  flags : List Bool
  /-- The number of the present token. -/
  present : Nat
  /-- The numbers of the tokens on which handles were taken, in that order. -/
  handles : List Nat
  /-- The token that was made last is the present one. -/
  last : present + 1 = flags.length

/-- What may be done with a session, apart from looking. -/
inductive Act where
  /-- Runs a script, on this thread or on another. -/
  | run (engine : Engine) (source : String)
  | runWithin (engine : Engine) (nanoseconds : Nat) (source : String)
  | cancel
  /-- Clears the flag of the present token. -/
  | reset
  /-- Makes a new token the present one. -/
  | renew
  /-- Takes a handle on the present token. -/
  | hold
  /-- Cancels the token on which a handle was taken; handles are numbered as they are taken. -/
  | cancelHandle (i : Nat)
  /-- Changes variables. -/
  | change (f : Store → Store)

namespace Workspace

/-- A workspace with a first token, on which no handle has been taken. -/
def start (id : String) (sink : Sink) : Workspace := ⟨id, ∅, sink, [false], 0, [], rfl⟩

theorem present_lt (w : Workspace) : w.present < w.flags.length :=
  w.last ▸ Nat.lt_succ_self w.present

/-- The present token is cancelled. -/
def cancelled (w : Workspace) : Bool := w.flags.get ⟨w.present, w.present_lt⟩

/-- What a run finds: the present token is all that it has of the tokens. -/
def session (w : Workspace) : Session := ⟨w.id, w.store, w.sink, ⟨w.present, w.cancelled⟩⟩

/-- Sets or clears the flag of a token. -/
def write (w : Workspace) (token : Nat) (flag : Bool) : Workspace :=
  { w with
    flags := w.flags.set token flag
    last := by rw [List.length_set, w.last] }

/-- Makes a new token the present one; handles stay with the tokens that they were taken on. -/
def renew (w : Workspace) : Workspace :=
  { w with
    flags := w.flags ++ [false]
    present := w.flags.length
    last := by simp }

/-- What an execution leaves; only the present token can have been cancelled or cleared in it. -/
def after (w : Workspace) (e : Execution) : Workspace :=
  { w with
    store := e.env.store
    sink := w.sink.reportAll e.reports }.write w.present e.env.cancelled

/-- Cancels the token on which a handle was taken, if one was. -/
def cancelHandle (w : Workspace) (i : Nat) : Workspace :=
  match w.handles[i]? with
  | some token => w.write token true
  | none => w

/-- Runs a script with the present token. -/
def run (w : Workspace) (engine : Engine) (limit : Option Nat) (source : String) :
    Execution × Workspace :=
  let e := engine.run (w.session.env limit) source
  ({ e with events := w.session.events engine e }, w.after e)

/-- Does what is asked for; a run leaves its execution. A limit that strikes cancels the token that
was made for its run, and clears it after the run. -/
def serve (w : Workspace) : Act → Option Execution × Workspace
  | .run engine source =>
    let (e, w) := w.run engine none source
    (some e, w)
  | .runWithin engine nanoseconds source =>
    let token := w.renew.present
    let (e, w) := w.renew.run engine (some nanoseconds) source
    (some e, if e.env.remaining.isNone then w.write token false else w)
  | .cancel => (none, w.write w.present true)
  | .reset => (none, w.write w.present false)
  | .renew => (none, w.renew)
  | .hold => (none, { w with handles := w.handles ++ [w.present] })
  | .cancelHandle i => (none, w.cancelHandle i)
  | .change f => (none, { w with store := f w.store })

/-- Does one act after the other. -/
def serveAll (w : Workspace) : List Act → List (Option Execution) × Workspace
  | [] => ([], w)
  | act :: acts =>
    let (answer, w) := w.serve act
    let (answers, w) := w.serveAll acts
    (answer :: answers, w)

end Workspace

end Runbook
