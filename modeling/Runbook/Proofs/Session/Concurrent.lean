import Mathlib
import Runbook.Proofs.Run.Course
import Runbook.Session.Concurrent

/-!
# Sessions side by side do not touch each other

However the moves of a hall of sessions come, each task goes through the course of the run that its
job has alone (`Stage.KeepsTo`): a move of the task keeps to that course (`KeepsTo.work`), and a
move of another task changes nothing of it but the state of the board, of which a task sees no more
than which sinks write to the log. What the sinks get is kept with the number of the task that
reports it (`Hall.Sound`); filtered by that number it is what the job reports alone, in the same
order.

A hall that has not handed back all results can always go on, and it cannot go on forever
(`exists_left_act_lt`).
-/

namespace Runbook

/-- The texts are made of the rows: each row gives all that it has, in its order. `log` tells for
each text which row it comes from. -/
def IsInterleaving {α : Type} (rows : List (List α)) (texts : List α) : Prop :=
  ∃ log : List (Nat × α), log.map (·.2) = texts ∧
    ∀ i, (log.filter (·.1 = i)).map (·.2) = rows[i]?.getD []

/-! ## Sinks -/

namespace Sink

theorem eq_log_report (text : String) (s : Sink) : (s.report text == .log) = (s == .log) := by
  cases s <;> rfl

theorem eq_log_reportAll (s : Sink) (texts : List String) :
    (s.reportAll texts == .log) = (s == .log) := by
  induction texts generalizing s with
  | nil => rfl
  | cons text texts ih => exact (ih (s.report text)).trans (eq_log_report text s)

end Sink

/-! ## A task goes through the run that its job has alone -/

namespace Engine

variable (engine : Engine)

theorem reports_close (c : Course) :
    (engine.close c).execution.reports = c.records.flatMap Record.reports := by
  rw [execution_close]
  rfl

theorem reports_settleNow (inv : Invocation) (cancelled : Bool) (conduct : Conduct) (c : Course) :
    (engine.settleNow inv cancelled conduct c).records.flatMap Record.reports =
      c.records.flatMap Record.reports ++ conduct.output.filterMap Output.report? := by
  rw [settleNow_eq, List.flatMap_append, List.flatMap_singleton]
  rfl

/-- Nothing is reported of an invocation that finds the run stopped or cancelled. -/
theorem reports_take_of_idle {c : Course} {inv : Invocation}
    (h : c.phase = .aborted ∨ (c.elapse (engine.pace.arriving c.taken)).env.cancelled = true) :
    (engine.take c inv).records.flatMap Record.reports = c.records.flatMap Record.reports := by
  by_cases hs : c.phase = .aborted
  · unfold take
    rw [if_pos hs, Course.enter, List.flatMap_append, List.flatMap_singleton]
    exact List.append_nil _
  · rw [engine.take_of_cancelled hs (h.resolve_left hs), reports_settleNow]
    exact List.append_nil _

theorem records_attemptNow (c : Course) (inv : Invocation) :
    (engine.attemptNow c inv).2.records = c.records := by
  rw [attemptNow_eq]

end Engine

namespace Job

/-- The sink does not matter to what comes of a script, except that it may be the log. -/
theorem logged_congr (job : Job) {board board' : Nat → Sink}
    (h : (board' job.channel == .log) = (board job.channel == .log)) (engine : Engine)
    (e : Execution) : job.logged engine board' e = job.logged engine board e := by
  unfold logged Session.events session
  dsimp only
  rw [h]

theorem alone_eq (engine : Engine) (board : Nat → Sink) (job : Job) :
    job.alone engine board =
      (job.logged engine board (engine.run job.env job.script),
        (job.session board).after (engine.run job.env job.script)) := rfl

/-- Running the jobs one after the other, each in a session of its own, gives what comes of each job
alone. -/
theorem runAll_eq (engine : Engine) (board : Nat → Sink) (jobs : List Job) :
    Session.runAll engine (jobs.map fun job => (job.session board, job.script)) =
      jobs.map (Job.alone engine board) :=
  List.map_map

theorem reports_logged (job : Job) (engine : Engine) (board : Nat → Sink) (e : Execution) :
    (job.logged engine board e).reports = e.reports := rfl

end Job

namespace Stage

variable {engine : Engine} {board board' : Nat → Sink} {job : Job} {said : List String}

/-- The stage is one of the run that the job has alone, and the texts are those that the run has
reported up to it. -/
def KeepsTo (engine : Engine) (board : Nat → Sink) (job : Job) (said : List String) : Stage → Prop
  | .waiting => said = []
  | .running course rest =>
    (engine.close (rest.foldl engine.take course)).execution = engine.run job.env job.script ∧
      course.records.flatMap Record.reports = said
  | .executing course inv conduct pending rest =>
    (engine.close (rest.foldl engine.take
        (engine.settleNow inv false conduct course))).execution =
        engine.run job.env job.script ∧
      course.records.flatMap Record.reports ++ conduct.output.filterMap Output.report? =
        said ++ pending.filterMap Output.report?
  | .done e => e = (job.alone engine board).1 ∧ e.reports = said

theorem KeepsTo.work {stage : Stage} (h : stage.KeepsTo engine board job said)
    (hlog : (board' job.channel == .log) = (board job.channel == .log)) :
    (stage.work engine board' job).1.KeepsTo engine board job
      (said ++ (stage.work engine board' job).2.toList) := by
  cases stage with
  | waiting =>
    obtain rfl : said = [] := h
    unfold Stage.work
    cases hparse : parse job.script with
    | error error =>
      have hrun : engine.run job.env job.script =
          ⟨.error error, job.env, [.moved .idle .parsing, .unparsed error]⟩ := by
        unfold Engine.run
        rw [hparse]
      refine ⟨?_, rfl⟩
      rw [Job.alone_eq, hrun]
      exact job.logged_congr hlog engine _
    | ok invs => exact ⟨(engine.run_eq_close hparse).symm, rfl⟩
  | running course rest =>
    obtain ⟨hrun, hsaid⟩ := h
    cases rest with
    | nil =>
      refine ⟨?_, ?_⟩
      · rw [Job.alone_eq, ← hrun]
        exact job.logged_congr hlog engine _
      · rw [Job.reports_logged, engine.reports_close, hsaid]
        exact (List.append_nil said).symm
    | cons inv rest =>
      rw [List.foldl_cons] at hrun
      unfold Stage.work
      dsimp only
      split
      · rename_i hidle
        refine ⟨hrun, ?_⟩
        rw [engine.reports_take_of_idle hidle, Option.toList_none, List.append_nil]
        exact hsaid
      · rename_i hgoing
        rw [not_or, Bool.not_eq_true] at hgoing
        rw [engine.take_of_going hgoing.1 hgoing.2] at hrun
        refine ⟨hrun, ?_⟩
        rw [engine.records_attemptNow, ← hsaid, Option.toList_none, List.append_nil]
        rfl
  | executing course inv conduct pending rest =>
    obtain ⟨hrun, hsaid⟩ := h
    cases pending with
    | nil =>
      refine ⟨hrun, ?_⟩
      rw [engine.reports_settleNow, hsaid]
      rfl
    | cons output pending =>
      refine ⟨hrun, ?_⟩
      rw [hsaid]
      cases output <;> simp [Stage.work, Output.report?, List.filterMap_cons]
  | done e =>
    obtain ⟨he, hsaid⟩ := h
    exact ⟨he, hsaid.trans (List.append_nil said).symm⟩

end Stage

/-! ## What reaches the sinks -/

/-- The texts of a row, among texts with the numbers of their rows. -/
def ofRow {α : Type} (i : Nat) (log : List (Nat × α)) : List α :=
  (log.filter (·.1 = i)).map (·.2)

theorem ofRow_append {α : Type} (i : Nat) (xs ys : List (Nat × α)) :
    ofRow i (xs ++ ys) = ofRow i xs ++ ofRow i ys := by
  unfold ofRow
  rw [List.filter_append, List.map_append]

theorem ofRow_map_self {α : Type} (i : Nat) (xs : List α) : ofRow i (xs.map (i, ·)) = xs := by
  unfold ofRow
  induction xs with
  | nil => rfl
  | cons x xs ih => simp [ih]

theorem ofRow_map_ne {α : Type} {i j : Nat} (h : j ≠ i) (xs : List α) :
    ofRow i (xs.map (j, ·)) = [] := by
  unfold ofRow
  induction xs with
  | nil => rfl
  | cons x xs ih => simp [h]

namespace Hall

/-- The texts in the log that come from jobs which report to the given sink. -/
def onChannel (jobs : List Job) (c : Nat) (log : List (Nat × String)) : List (Nat × String) :=
  log.filter fun entry => (jobs[entry.1]?.map (·.channel)) = some c

theorem onChannel_append (jobs : List Job) (c : Nat) (xs ys : List (Nat × String)) :
    onChannel jobs c (xs ++ ys) = onChannel jobs c xs ++ onChannel jobs c ys :=
  List.filter_append ..

theorem onChannel_singleton {jobs : List Job} {i : Nat} {job : Job} (h : jobs[i]? = some job)
    (c : Nat) (text : String) :
    onChannel jobs c [(i, text)] = if c = job.channel then [(i, text)] else [] := by
  unfold onChannel
  rw [List.filter_cons, List.filter_nil]
  simp [h, eq_comm]

theorem ofRow_onChannel (jobs : List Job) (c i : Nat) (log : List (Nat × String)) :
    ofRow i (onChannel jobs c log) =
      if jobs[i]?.map (·.channel) = some c then ofRow i log else [] := by
  unfold ofRow onChannel
  rw [List.filter_filter]
  split
  · rename_i hc
    refine congrArg _ (List.filter_congr fun entry _ => ?_)
    by_cases hi : entry.1 = i
    · simp [hi, hc]
    · simp [hi]
  · rename_i hc
    rw [List.map_eq_nil_iff, List.filter_eq_nil_iff]
    intro entry _ h
    simp only [Bool.and_eq_true, decide_eq_true_eq] at h
    obtain ⟨rfl, hentry⟩ := h
    exact hc hentry

/-- Where a hall can get from its start on: every task is in a stage of the run that its job has
alone, the log tells what each task has reported, and with it how the sinks have come to be what
they are, and the results so far are those of the first jobs alone. -/
structure Sound (engine : Engine) (board : Nat → Sink) (jobs : List Job)
    (log : List (Nat × String)) (h : Hall) : Prop where
  jobs_eq : h.tasks.map (·.job) ++ h.queue = jobs
  keeps : ∀ (i : Nat) (task : Task), h.tasks[i]? = some task →
    task.stage.KeepsTo engine board task.job (ofRow i log)
  silent : ∀ i, h.tasks.length ≤ i → ofRow i log = []
  board_eq : ∀ c, h.board c = (board c).reportAll ((onChannel jobs c log).map (·.2))
  results_eq : h.results = (jobs.take h.results.length).map fun job =>
    .ofSession job.channel (job.alone engine board).1 (job.alone engine board).2
  collected : ∀ i < h.results.length,
    ∃ (task : Task) (e : Execution), h.tasks[i]? = some task ∧ task.stage = .done e

variable {engine : Engine} {board : Nat → Sink} {jobs : List Job} {log : List (Nat × String)}
  {h : Hall}

theorem sound_start : Sound engine board jobs [] (start board jobs) where
  jobs_eq := rfl
  keeps i task htask := by simp [start] at htask
  silent _ _ := rfl
  board_eq _ := rfl
  results_eq := rfl
  collected i hi := absurd hi (Nat.not_lt_zero i)

theorem Sound.getElem?_jobs (hs : Sound engine board jobs log h) {i : Nat} {task : Task}
    (htask : h.tasks[i]? = some task) : jobs[i]? = some task.job := by
  obtain ⟨hi, rfl⟩ := List.getElem?_eq_some_iff.1 htask
  rw [← hs.jobs_eq, List.getElem?_append_left (by simpa using hi), List.getElem?_map, htask]
  rfl

theorem Sound.spawn (hs : Sound engine board jobs log h) :
    Sound engine board jobs log h.spawn := by
  unfold Hall.spawn
  cases hqueue : h.queue with
  | nil => exact hs
  | cons job queue =>
    exact {
      jobs_eq := by
        rw [← hs.jobs_eq, hqueue, List.map_append, List.append_assoc]
        rfl
      keeps := by
        intro i task htask
        rw [List.getElem?_append] at htask
        split at htask
        · exact hs.keeps i task htask
        · rename_i hi
          obtain rfl := List.mem_singleton.1 (List.mem_of_getElem? htask)
          exact hs.silent i (Nat.le_of_not_lt hi)
      silent := by
        intro i hi
        rw [List.length_append, List.length_singleton] at hi
        exact hs.silent i (by omega)
      board_eq := hs.board_eq
      results_eq := hs.results_eq
      collected := by
        intro i hi
        obtain ⟨task, e, htask, hdone⟩ := hs.collected i hi
        have hlt := (List.getElem?_eq_some_iff.1 htask).1
        exact ⟨task, e, (List.getElem?_append_left hlt).trans htask, hdone⟩ }

theorem Sound.collect (hs : Sound engine board jobs log h) :
    Sound engine board jobs log h.collect := by
  unfold Hall.collect
  split
  · rename_i job e hqueue htask
    obtain ⟨he, -⟩ := hs.keeps _ _ htask
    exact {
      jobs_eq := hs.jobs_eq
      keeps := hs.keeps
      silent := hs.silent
      board_eq := hs.board_eq
      results_eq := by
        dsimp only
        rw [List.length_append, List.length_singleton, List.take_add_one, hs.getElem?_jobs htask,
          List.map_append, ← hs.results_eq, he]
        rfl
      collected := by
        intro i hi
        rw [List.length_append, List.length_singleton] at hi
        rcases Nat.lt_succ_iff_lt_or_eq.1 hi with hi | rfl
        · exact hs.collected i hi
        · exact ⟨_, e, htask, rfl⟩ }
  · exact hs

theorem Sound.goOn (hs : Sound engine board jobs log h) (i : Nat) :
    ∃ log, Sound engine board jobs log (h.goOn engine i) := by
  unfold Hall.goOn
  cases htask : h.tasks[i]? with
  | none => exact ⟨log, hs⟩
  | some task =>
    obtain ⟨job, stage⟩ := task
    have hlt := (List.getElem?_eq_some_iff.1 htask).1
    have hjob := hs.getElem?_jobs htask
    dsimp only
    have hlog : (h.board job.channel == .log) = (board job.channel == .log) := by
      rw [hs.board_eq, Sink.eq_log_reportAll]
    have hkeeps := Stage.KeepsTo.work (hs.keeps i _ htask) hlog
    have hdone : ∀ e, stage = .done e → (stage.work engine h.board job).1 = .done e := by
      rintro e rfl
      rfl
    generalize stage.work engine h.board job = next at hkeeps hdone
    refine ⟨log ++ next.2.toList.map (i, ·), ?_⟩
    exact {
      jobs_eq := by
        have hsame := @List.set_getElem_self _ (h.tasks.map (·.job)) i (by simpa using hlt)
        rw [List.getElem_map, (List.getElem?_eq_some_iff.1 htask).2] at hsame
        rw [List.map_set, hsame, hs.jobs_eq]
      keeps := by
        intro j task hj
        rw [List.getElem?_set] at hj
        rw [ofRow_append]
        split at hj
        · rename_i hij
          subst hij
          obtain rfl := Option.some.inj hj
          rw [ofRow_map_self]
          exact hkeeps
        · rename_i hij
          rw [ofRow_map_ne hij, List.append_nil]
          exact hs.keeps j task hj
      silent := by
        intro j hj
        rw [List.length_set] at hj
        rw [ofRow_append, hs.silent j hj, ofRow_map_ne (by omega)]
        rfl
      board_eq := by
        intro c
        rw [onChannel_append, List.map_append, Sink.reportAll_append, ← hs.board_eq]
        cases next.2 with
        | none => rfl
        | some text =>
          show report h.board job.channel text c =
            (h.board c).reportAll ((onChannel jobs c [(i, text)]).map (·.2))
          rw [onChannel_singleton hjob]
          unfold report
          split <;> rfl
      results_eq := hs.results_eq
      collected := by
        intro j hj
        obtain ⟨task, e, hget, he⟩ := hs.collected j hj
        by_cases hij : i = j
        · subst hij
          obtain rfl := Option.some.inj (htask.symm.trans hget)
          refine ⟨_, e, List.getElem?_set_self hlt, hdone e he⟩
        · exact ⟨task, e, (List.getElem?_set_ne hij).trans hget, he⟩ }

theorem Sound.exists_act (hs : Sound engine board jobs log h) (move : Move) :
    ∃ log, Sound engine board jobs log (h.act engine move) := by
  cases move with
  | spawn => exact ⟨log, hs.spawn⟩
  | work i => exact hs.goOn i
  | collect => exact ⟨log, hs.collect⟩

theorem exists_sound (engine : Engine) (board : Nat → Sink) (jobs : List Job) (moves : List Move) :
    ∃ log, Sound engine board jobs log ((start board jobs).acts engine moves) := by
  suffices ∀ h log, Sound engine board jobs log h →
      ∃ log, Sound engine board jobs log (h.acts engine moves) from this _ _ sound_start
  induction moves with
  | nil => exact fun h log hs => ⟨log, hs⟩
  | cons move moves ih =>
    intro h log hs
    obtain ⟨log, hs⟩ := hs.exists_act move
    exact ih _ _ hs

/-- When all results are there, each job has reported what it reports alone. -/
theorem Sound.ofRow_eq (hs : Sound engine board jobs log h)
    (hall : h.results.length = jobs.length) {i : Nat} {job : Job} (hjob : jobs[i]? = some job) :
    ofRow i log = (job.alone engine board).1.reports := by
  have hi : i < h.results.length := by
    rw [hall]
    exact (List.getElem?_eq_some_iff.1 hjob).1
  obtain ⟨task, e, htask, hdone⟩ := hs.collected i hi
  obtain rfl : job = task.job := Option.some.inj (hjob.symm.trans (hs.getElem?_jobs htask))
  have hkeeps := hs.keeps i task htask
  rw [hdone] at hkeeps
  rw [← hkeeps.2, hkeeps.1]

theorem Sound.isInterleaving (hs : Sound engine board jobs log h)
    (hall : h.results.length = jobs.length) (c : Nat) :
    IsInterleaving
      (jobs.map fun job => if job.channel = c then (job.alone engine board).1.reports else [])
      ((onChannel jobs c log).map (·.2)) := by
  refine ⟨onChannel jobs c log, rfl, fun i => ?_⟩
  show ofRow i (onChannel jobs c log) = _
  rw [ofRow_onChannel, List.getElem?_map]
  cases hjob : jobs[i]? with
  | none => rfl
  | some job =>
    rw [hs.ofRow_eq hall hjob]
    simp

end Hall

/-! ## Going on to the end -/

/-- The number of moves that it takes a run under way to get through the invocations. -/
def Engine.movesLeft (engine : Engine) (c : Course) : List Invocation → Nat
  | [] => 1
  | inv :: rest =>
    let now := c.elapse (engine.pace.arriving c.taken)
    if c.phase = .aborted ∨ now.env.cancelled then engine.movesLeft (engine.take c inv) rest + 1
    else
      let (conduct, did) := engine.attemptNow now inv
      engine.movesLeft (engine.settleNow inv false conduct did) rest + 1 + conduct.output.length + 1

/-- The number of moves that it takes a task to be done. -/
def Stage.left (engine : Engine) (job : Job) : Stage → Nat
  | .waiting =>
    match parse job.script with
    | .error _ => 1
    | .ok invs => engine.movesLeft ((Course.start job.env).move .parsing) invs + 1
  | .running course rest => engine.movesLeft course rest
  | .executing course inv conduct pending rest =>
    engine.movesLeft (engine.settleNow inv false conduct course) rest + 1 + pending.length
  | .done _ => 0

theorem Stage.left_work (engine : Engine) (board : Nat → Sink) (job : Job) {stage : Stage}
    (h : ∀ e, stage ≠ .done e) :
    (stage.work engine board job).1.left engine job + 1 = stage.left engine job := by
  cases stage with
  | waiting =>
    unfold Stage.work Stage.left
    cases parse job.script <;> rfl
  | running course rest =>
    cases rest with
    | nil => rfl
    | cons inv rest =>
      by_cases hidle : course.phase = .aborted ∨
          (course.elapse (engine.pace.arriving course.taken)).env.cancelled = true
      · simp only [Stage.work, Stage.left, Engine.movesLeft, if_pos hidle]
      · simp only [Stage.work, Stage.left, Engine.movesLeft, if_neg hidle]
  | executing course inv conduct pending rest => cases pending <;> rfl
  | done e => exact absurd rfl (h e)

namespace Hall

variable {engine : Engine} {board : Nat → Sink} {jobs : List Job} {log : List (Nat × String)}
  {h : Hall}

/-- The number of moves that it takes a hall to hand back all results. -/
def left (engine : Engine) (h : Hall) : Nat :=
  (h.queue.map fun job => Stage.waiting.left engine job + 2).sum +
    (h.tasks.map fun task => task.stage.left engine task.job).sum +
    (h.tasks.length - h.results.length)

theorem sum_set_add {counts : List Nat} {i n : Nat} (h : counts[i]? = some n) (m : Nat) :
    (counts.set i m).sum + n = counts.sum + m := by
  obtain ⟨hi, hn⟩ := List.getElem?_eq_some_iff.1 h
  have hsplit := congrArg List.sum (List.take_append_drop i counts)
  rw [List.drop_eq_getElem_cons hi, hn] at hsplit
  rw [List.set_eq_take_append_cons_drop, if_pos hi]
  simp only [List.sum_append, List.sum_cons] at hsplit ⊢
  omega

theorem left_goOn {i : Nat} {job : Job} {stage : Stage} (htask : h.tasks[i]? = some ⟨job, stage⟩)
    (hdone : ∀ e, stage ≠ .done e) : (h.goOn engine i).left engine + 1 = h.left engine := by
  have hleft := Stage.left_work engine h.board job hdone
  have hget : (h.tasks.map fun task => task.stage.left engine task.job)[i]? =
      some (stage.left engine job) := by
    rw [List.getElem?_map, htask]
    rfl
  have hsum := sum_set_add hget ((stage.work engine h.board job).1.left engine job)
  unfold goOn
  rw [htask]
  unfold left
  dsimp only
  rw [List.map_set, List.length_set]
  dsimp only
  omega

/-- A hall that has not handed back all results can go on. -/
theorem Sound.exists_left_act_lt (hs : Sound engine board jobs log h)
    (hless : h.results.length < jobs.length) :
    ∃ move, (h.act engine move).left engine < h.left engine := by
  cases hqueue : h.queue with
  | cons job queue =>
    refine ⟨.spawn, ?_⟩
    unfold act Hall.spawn left
    simp [hqueue]
    omega
  | nil =>
    by_cases hdone : ∀ task ∈ h.tasks, ∃ e, task.stage = .done e
    · have hlength := congrArg List.length hs.jobs_eq
      rw [hqueue, List.append_nil, List.length_map] at hlength
      have hlt : h.results.length < h.tasks.length := by omega
      obtain ⟨e, he⟩ := hdone _ (List.getElem_mem hlt)
      have htask : h.tasks[h.results.length]? =
          some ⟨h.tasks[h.results.length].job, .done e⟩ := by
        rw [List.getElem?_eq_getElem hlt, ← he]
      refine ⟨.collect, ?_⟩
      unfold act Hall.collect
      rw [hqueue, htask]
      unfold left
      simp [hqueue]
      omega
    · simp only [Classical.not_forall, not_exists] at hdone
      obtain ⟨task, hmem, hdone⟩ := hdone
      obtain ⟨i, hi⟩ := List.mem_iff_getElem?.1 hmem
      refine ⟨.work i, ?_⟩
      show (h.goOn engine i).left engine < h.left engine
      have := @left_goOn engine h i task.job task.stage hi hdone
      omega

theorem Sound.length_results_le (hs : Sound engine board jobs log h) :
    h.results.length ≤ jobs.length := by
  have := congrArg List.length hs.results_eq
  rw [List.length_map, List.length_take] at this
  omega

theorem Sound.exists_all_results (hs : Sound engine board jobs log h) :
    ∃ more, (h.acts engine more).results.length = jobs.length := by
  induction hn : h.left engine using Nat.strongRecOn generalizing h log with
  | ind n ih =>
    by_cases hless : h.results.length < jobs.length
    · obtain ⟨move, hlt⟩ := hs.exists_left_act_lt hless
      obtain ⟨log', hs'⟩ := hs.exists_act move
      obtain ⟨more, hmore⟩ := ih _ (hn ▸ hlt) hs' rfl
      exact ⟨move :: more, hmore⟩
    · exact ⟨[], Nat.le_antisymm hs.length_results_le (Nat.le_of_not_lt hless)⟩

end Hall

/-- Sessions side by side are isolated. However their moves come, the results that have been
collected are those of the first jobs, each with what comes of its job alone: its execution, its
variables and its token. More moves can always be found that bring the results which are missing.
With all results there, what has been reported to a sink is an interleaving of what each of its jobs
reports alone; so the history of a recorder that is shared from its start on is one of the histories
that it has with each of its jobs alone. -/
theorem concurrent_sessions_isolated (engine : Engine) (board : Nat → Sink) (jobs : List Job)
    (moves : List Move) :
    let h := (Hall.start board jobs).acts engine moves
    (h.results = (jobs.take h.results.length).map fun job =>
      .ofSession job.channel (job.alone engine board).1 (job.alone engine board).2) ∧
    (∃ more, (h.acts engine more).results.length = jobs.length) ∧
    (h.results.length = jobs.length → ∀ c,
      (∃ texts, h.board c = (board c).reportAll texts ∧
        IsInterleaving
          (jobs.map fun job => if job.channel = c then (job.alone engine board).1.reports else [])
          texts) ∧
      (board c = .recorder →
        IsInterleaving
          (jobs.map fun job =>
            if job.channel = c then (job.alone engine board).2.sink.history else [])
          (h.board c).history)) := by
  intro h
  obtain ⟨log, hs⟩ := Hall.exists_sound engine board jobs moves
  refine ⟨hs.results_eq, hs.exists_all_results, fun hall c => ⟨⟨_, hs.board_eq c, ?_⟩, ?_⟩⟩
  · exact hs.isInterleaving hall c
  · intro hrecorder
    have hrows : ∀ job ∈ jobs,
        (if job.channel = c then (job.alone engine board).2.sink.history else []) =
          if job.channel = c then (job.alone engine board).1.reports else [] := by
      intro job _
      split
      · rename_i hc
        show ((board job.channel).reportAll (job.alone engine board).1.reports).history = _
        rw [hc, hrecorder, Sink.recorder, Sink.reportAll_recording]
        rfl
      · rfl
    rw [List.map_congr_left hrows, hs.board_eq c, hrecorder, Sink.recorder,
      Sink.reportAll_recording]
    exact hs.isInterleaving hall c

/-- Two sessions share a recorder, and the second reports between the reports of the first. -/
theorem concurrent_sessions_isolated_shared :
    let engine : Engine := { catalog := .standard }
    let jobs : List Job :=
      [⟨"a", ∅, .first, 0, "UpdateStatus a1\nUpdateStatus a2"⟩,
        ⟨"b", ∅, .first, 0, "UpdateStatus b"⟩]
    let moves : List Move :=
      .spawn :: .work 0 :: .spawn :: .work 1 :: .work 0 :: .work 0 :: .work 1 :: .work 1 ::
        (List.replicate 5 (.work 0) ++ List.replicate 2 (.work 1) ++ [.collect, .collect])
    let h := (Hall.start (fun _ => .recorder) jobs).acts engine moves
    h.results.length = jobs.length ∧ (h.board 0).history = ["a1", "b", "a2"] ∧
      IsInterleaving
        (jobs.map fun job =>
          if job.channel = 0 then (job.alone engine fun _ => .recorder).2.sink.history else [])
        (h.board 0).history := by
  intro engine jobs moves h
  have hall : h.results.length = jobs.length := by decide +kernel
  have hhistory : (h.board 0).history = ["a1", "b", "a2"] := by decide +kernel
  -- From here on the moves are not to be evaluated.
  clear_value jobs moves
  obtain ⟨-, -, hsinks⟩ := concurrent_sessions_isolated engine (fun _ => .recorder) jobs moves
  exact ⟨hall, hhistory, (hsinks hall 0).2 rfl⟩

end Runbook
