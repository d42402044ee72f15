import Runbook.Proofs.Run.Transitions
import Runbook.Run.Course

/-!
# A run as it goes on is the run that it comes to

Taking up an invocation moves a run as one step does (`take_eq`): it leaves the record, the progress
and the events of the step, and the phase tells whether the run has stopped. So a run that is taken
through all its invocations and closed is the run that `Engine.execute` makes, and the events that
it has written down one by one are those that are read off the records (`close_foldl_take`).
-/

namespace Runbook

namespace Course

/-- Where a run under way stands. -/
def progress (c : Course) : Progress := ⟨c.env, c.bound, c.phase == .aborted, c.taken⟩

/-- The run when a step has gone from it to the given progress and left the record. -/
def after (c : Course) (r : Record) (p : Progress) : Course :=
  ⟨p.env, p.bound, p.taken, r.phaseAfter c.phase, c.records ++ [r], c.events ++ r.events c.phase⟩

end Course

namespace Engine

variable (engine : Engine)

theorem attemptNow_eq (c : Course) (inv : Invocation) :
    engine.attemptNow c inv =
      let did := engine.attempt c.progress inv
      (did.1, { c with
        env := did.2.1
        bound := did.2.2
        phase := did.1.phases.getLastD c.phase
        events := c.events ++ c.phase.moves did.1.phases ++ did.1.incidents inv }) := by
  unfold attemptNow attempt
  cases engine.catalog.find? inv.name with
  | none => simp [Course.move, Course.note, Course.progress, Conduct.phases, Phase.moves]
  | some command =>
    by_cases hshort : inv.arguments.length < command.minArguments
    · simp [hshort, Course.move, Course.progress, Conduct.phases, Phase.moves, Conduct.incidents]
    · simp [hshort, Course.move, Course.note, Course.elapse, Course.progress, Conduct.phases,
        Phase.moves]

/-- What is recorded of an invocation that was attempted or found the run cancelled. -/
theorem settleNow_eq (inv : Invocation) (cancelled : Bool) (conduct : Conduct) (c : Course) :
    engine.settleNow inv cancelled conduct c =
      let env := if cancelled then c.env else c.env.elapse (engine.pace.leaving c.taken)
      let stops := cancelled || env.cancelled ||
        (engine.policy == .abort && !(conduct.outcome inv).status.isPass)
      ⟨env, c.bound, c.taken + 1, if stops then .aborted else .recording,
        c.records ++ [⟨inv, engine.description inv.name, conduct, stops⟩],
        c.events ++ (.moved c.phase .recording ::
          .finished inv.line (conduct.name inv) (conduct.outcome inv).status ::
            if stops then [.moved .recording .aborted] else [])⟩ := by
  cases cancelled with
  | true => simp [settleNow, Course.move, Course.note, Course.enter]
  | false =>
    simp only [settleNow, Bool.false_eq_true, if_false, Course.elapse, Course.move, Course.note,
      Course.enter]
    generalize (false || (c.env.elapse (engine.pace.leaving c.taken)).cancelled ||
      (engine.policy == .abort && !(conduct.outcome inv).status.isPass)) = stops
    cases stops <;> simp

theorem take_of_cancelled {c : Course} (hs : c.phase ≠ .aborted)
    (hc : (engine.arrival c.progress).cancelled = true) (inv : Invocation) :
    engine.take c inv =
      engine.settleNow inv true .cancelled (c.elapse (engine.pace.arriving c.taken)) := by
  unfold take
  rw [if_neg hs]
  exact if_pos hc

theorem take_of_going {c : Course} (hs : c.phase ≠ .aborted)
    (hc : (engine.arrival c.progress).cancelled = false) (inv : Invocation) :
    engine.take c inv =
      let did := engine.attemptNow (c.elapse (engine.pace.arriving c.taken)) inv
      engine.settleNow inv false did.1 did.2 := by
  unfold take
  rw [if_neg hs]
  exact if_neg (Bool.eq_false_iff.1 hc)

/-- Taking up an invocation is one step. -/
theorem take_eq (c : Course) (inv : Invocation) :
    engine.take c inv =
      c.after (engine.step c.progress inv).1 (engine.step c.progress inv).2 := by
  have hphase : c.progress.stopped = false → c.phase ≠ .aborted := beq_eq_false_iff_ne.1
  rcases engine.step_cases c.progress inv with ⟨hs, h⟩ | ⟨hs, hc, h⟩ | ⟨hs, hc, h⟩
  · rw [h]
    unfold take
    rw [if_pos (beq_iff_eq.1 hs)]
    simp [Course.enter, Course.after, Course.progress, skipped, Record.phaseAfter, Record.events]
  · rw [h, engine.take_of_cancelled (hphase hs) hc, settleNow_eq]
    rfl
  · have hne := engine.conduct_step_ne_skipped hs inv
    rw [h] at hne ⊢
    rw [engine.take_of_going (hphase hs) hc, attemptNow_eq]
    dsimp only at hne ⊢
    rw [settleNow_eq]
    unfold Course.after
    rw [Record.events_of_attempted hne, Record.phaseAfter_of_attempted hne, Record.preliminaries]
    simp only [List.append_assoc]
    rfl

theorem progress_take (c : Course) (inv : Invocation) :
    (engine.take c inv).progress = (engine.step c.progress inv).2 := by
  rw [take_eq]
  have hstopped : (engine.step c.progress inv).2.stopped =
      ((engine.step c.progress inv).1.phaseAfter c.phase == .aborted) := by
    cases hs : c.progress.stopped with
    | true =>
      rw [engine.step_of_stopped hs]
      rfl
    | false =>
      rw [Record.phaseAfter_of_attempted (engine.conduct_step_ne_skipped hs inv),
        engine.stops_step hs]
      cases (engine.step c.progress inv).2.stopped <;> rfl
  unfold Course.after Course.progress at *
  rw [← hstopped]

/-! ## Whole runs -/

theorem foldl_take_eq (c : Course) (invs : List Invocation) :
    (invs.foldl engine.take c).progress = (engine.steps c.progress invs).2 ∧
      (invs.foldl engine.take c).records = c.records ++ (engine.steps c.progress invs).1 ∧
      (invs.foldl engine.take c).events =
        c.events ++ (Record.allEvents c.phase (engine.steps c.progress invs).1).1 ∧
      (invs.foldl engine.take c).phase =
        (Record.allEvents c.phase (engine.steps c.progress invs).1).2 := by
  induction invs generalizing c with
  | nil => simp [steps, Record.allEvents]
  | cons inv invs ih =>
    have htake := engine.take_eq c inv
    obtain ⟨hprogress, hrecords, hevents, hphase⟩ := ih (engine.take c inv)
    rw [progress_take] at hprogress hrecords hevents hphase
    rw [congrArg Course.records htake] at hrecords
    rw [congrArg Course.phase htake] at hevents hphase
    rw [congrArg Course.events htake] at hevents
    rw [List.foldl_cons, steps_cons, Record.allEvents_cons]
    refine ⟨hprogress, ?_, ?_, hphase⟩
    · rw [hrecords, Course.after, List.append_assoc, List.singleton_append]
    · rw [hevents, Course.after, List.append_assoc]

theorem execution_close (c : Course) :
    (engine.close c).execution =
      let env := c.env.elapse (engine.pace.arriving c.taken)
      ⟨.ok ⟨c.records, c.progress.stopped, env⟩, env,
        c.events ++ if c.progress.stopped then [] else [.moved c.phase .completed]⟩ := by
  by_cases h : c.phase = .aborted
  · simp [close, Course.elapse, Course.execution, Course.run, Course.progress, h]
  · have hstopped : (c.phase == .aborted) = false := beq_eq_false_iff_ne.2 h
    simp [close, Course.elapse, Course.execution, Course.run, Course.progress, Course.move, h,
      hstopped]

/-- A run that is taken through its invocations and closed is the run that it comes to, with the
events that are read off its records. -/
theorem close_foldl_take (env : Env) (opening : List Event) {phase : Phase}
    (hphase : phase ≠ .aborted) (invs : List Invocation) :
    (engine.close (invs.foldl engine.take
        { Course.start env with phase, events := opening })).execution =
      ⟨.ok (engine.execute env invs), (engine.execute env invs).env,
        opening ++ (engine.execute env invs).events phase⟩ := by
  have hstart : ({ Course.start env with phase, events := opening } : Course).progress =
      .start env := by
    unfold Course.progress
    rw [beq_eq_false_iff_ne.2 hphase]
    rfl
  obtain ⟨hprogress, hrecords, hevents, hlast⟩ :=
    engine.foldl_take_eq { Course.start env with phase, events := opening } invs
  rw [hstart] at hprogress hrecords hevents hlast
  have henv := congrArg Progress.env hprogress
  have htaken := congrArg Progress.taken hprogress
  unfold Course.progress at henv htaken
  dsimp only at henv htaken
  rw [execution_close, hprogress, hrecords, hevents, hlast, henv, htaken, List.append_assoc]
  rfl

/-- The run of a script is the run under way that begins idle, moves on to parsing, and is taken
through the invocations that are read. -/
theorem run_eq_close {env : Env} {source : String} {invs : List Invocation}
    (h : parse source = .ok invs) :
    engine.run env source =
      (engine.close (invs.foldl engine.take ((Course.start env).move .parsing))).execution := by
  have hclose := @close_foldl_take engine env [.moved .idle .parsing] .parsing (by decide) invs
  unfold run
  rw [h]
  exact hclose.symm

theorem runInvocations_eq_close (env : Env) (invs : List Invocation) :
    engine.runInvocations env invs =
      (engine.close (invs.foldl engine.take (Course.start env))).execution :=
  (engine.close_foldl_take env [] (by decide) invs).symm

end Engine

end Runbook
