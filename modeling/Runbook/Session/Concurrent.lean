import Runbook.Run.Course
import Runbook.Session

/-!
# Sessions side by side

Jobs are scripts to be run in sessions of their own, all with one engine. Each becomes a task, tasks
go on in any order, a little at a time, and the results are collected in the order of the jobs. What
sessions may share is where they report to: their sinks are those of a board, by number.

Variables, token and bound arguments are a session's own. What the body of a command does to them is
done at once; the texts that it reports go to the board one by one, and other tasks may go on in
between.
-/

namespace Runbook

/-- A script to be run in a session whose sink is one of a board. -/
structure Job where
  id : String
  store : Store
  token : Cancellation
  /-- The number of the sink. -/
  channel : Nat
  script : String

/-- What is handed back for a job: what came of the script, and what the session holds then. -/
structure Finished where
  execution : Execution
  id : String
  store : Store
  token : Cancellation
  channel : Nat

namespace Finished

/-- Hands back a session that keeps its place on the board. -/
def ofSession (channel : Nat) (e : Execution) (s : Session) : Finished :=
  ⟨e, s.id, s.store, s.token, channel⟩

end Finished

/-- How far a task has come. -/
inductive Stage where
  | waiting
  /-- Some invocations have not been taken up. -/
  | running (course : Course) (rest : List Invocation)
  /-- The body of a command has been run for an invocation, and some of what it put out has not got
  to where it goes. -/
  | executing (course : Course) (inv : Invocation) (conduct : Conduct) (pending : List Output)
    (rest : List Invocation)
  | done (execution : Execution)

namespace Job

/-- The session of a job, its sink taken from the board. -/
def session (job : Job) (board : Nat → Sink) : Session :=
  ⟨job.id, job.store, board job.channel, job.token⟩

/-- What the first command of the script finds. -/
def env (job : Job) : Env := ⟨job.id, job.store, job.token.cancelled, none⟩

/-- An execution with the events that the session shows of it. -/
def logged (engine : Engine) (board : Nat → Sink) (job : Job) (e : Execution) : Execution :=
  { e with events := (job.session board).events engine e }

/-- What comes of the job if its session has the board to itself. -/
def alone (engine : Engine) (board : Nat → Sink) (job : Job) : Execution × Session :=
  (job.session board).run engine job.script

end Job

/-- The text that reaches a sink, if it is one. -/
def Output.report? : Output → Option String
  | .report text => some text
  | _ => none

/-- Goes on with a job a little: the stage after it, and the text that has been reported, if any. -/
def Stage.work (engine : Engine) (board : Nat → Sink) (job : Job) : Stage → Stage × Option String
  | .waiting =>
    let course := (Course.start job.env).move .parsing
    match parse job.script with
    | .error error =>
      (.done (job.logged engine board
        ⟨.error error, course.env, course.events ++ [.unparsed error]⟩), none)
    | .ok invs => (.running course invs, none)
  | .running course [] => (.done (job.logged engine board (engine.close course).execution), none)
  | .running course (inv :: rest) =>
    let now := course.elapse (engine.pace.arriving course.taken)
    if course.phase = .aborted ∨ now.env.cancelled then
      (.running (engine.take course inv) rest, none)
    else
      let (conduct, course) := engine.attemptNow now inv
      (.executing course inv conduct conduct.output rest, none)
  | .executing course inv conduct (output :: pending) rest =>
    (.executing course inv conduct pending rest, output.report?)
  | .executing course inv conduct [] rest =>
    (.running (engine.settleNow inv false conduct course) rest, none)
  | .done e => (.done e, none)

/-- A job that has been taken up. -/
structure Task where
  job : Job
  stage : Stage

/-- Sessions side by side, and the sinks that they report to. -/
structure Hall where
  board : Nat → Sink
  /-- Jobs that have not been taken up. -/
  queue : List Job
  tasks : List Task
  results : List Finished

/-- What can happen next in a hall. -/
inductive Move where
  /-- Takes up the next job. -/
  | spawn
  /-- Goes on with a task. -/
  | work (i : Nat)
  /-- Collects the next result. -/
  | collect
deriving DecidableEq, Repr

namespace Hall

/-- A hall in which no job has been taken up. -/
def start (board : Nat → Sink) (jobs : List Job) : Hall := ⟨board, jobs, [], []⟩

/-- Reports a text to the sink of a number. -/
def report (board : Nat → Sink) (channel : Nat) (text : String) : Nat → Sink :=
  fun c => if c = channel then (board c).report text else board c

/-- Takes up the next job, if there is one. -/
def spawn (h : Hall) : Hall :=
  match h.queue with
  | [] => h
  | job :: queue => { h with queue, tasks := h.tasks ++ [⟨job, .waiting⟩] }

/-- Goes on with a task, if there is one of the number. -/
def goOn (engine : Engine) (i : Nat) (h : Hall) : Hall :=
  match h.tasks[i]? with
  | none => h
  | some ⟨job, stage⟩ =>
    let (stage, text?) := stage.work engine h.board job
    { h with
      tasks := h.tasks.set i ⟨job, stage⟩
      board := text?.elim h.board (report h.board job.channel) }

/-- Collects the next result in the order of the jobs, if all jobs have been taken up and the result
is there. -/
def collect (h : Hall) : Hall :=
  match h.queue, h.tasks[h.results.length]? with
  | [], some ⟨job, .done e⟩ =>
    { h with results := h.results ++ [.ofSession job.channel e ((job.session h.board).after e)] }
  | _, _ => h

/-- Makes a move; one that is not possible changes nothing. -/
def act (engine : Engine) (h : Hall) : Move → Hall
  | .spawn => h.spawn
  | .work i => h.goOn engine i
  | .collect => h.collect

/-- The hall after a row of moves. -/
def acts (engine : Engine) (h : Hall) (moves : List Move) : Hall := moves.foldl (act engine) h

end Hall

end Runbook
