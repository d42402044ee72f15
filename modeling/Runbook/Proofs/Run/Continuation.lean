import Runbook.Proofs.Run.Binding
import Runbook.Run.Event

/-!
# Continuing a run

A run over two rows of invocations is the run over the first followed by a run over the second from
the surroundings that the first has left, if the first completes; if it aborts, the second row is
skipped (`execute_append_of_completed`, `execute_append_of_aborted`). This holds where nothing but
waiting takes time and no body changes the number of arguments as it is read, which a new run takes
up from the store.

The continued run and the new one agree on all that a step looks at (`Progress.Alike`); each step
keeps that and leaves the same record on both sides (`alike_step`).

A run without a time limit cannot tell how fast it goes, so what is said of an engine that takes
time for nothing but waiting holds of it as well (`execute_instant`).
-/

namespace Runbook

/-- No time at all can only make a limit of no time strike, and it does so once. -/
theorem Env.elapse_zero_elapse_zero (env : Env) : (env.elapse 0).elapse 0 = env.elapse 0 := by
  obtain ⟨session, store, cancelled, remaining⟩ := env
  match remaining with
  | none => rfl
  | some 0 => rfl
  | some (left + 1) => rfl

namespace Progress

/-- Two runs stand alike: they have bound the same number of arguments, both or neither have
stopped, and their surroundings are the same once a limit of no time has struck. -/
structure Alike (p q : Progress) : Prop where
  env : p.env.elapse 0 = q.env.elapse 0
  bound : p.bound = q.bound
  stopped : p.stopped = q.stopped

end Progress

namespace Run

/-- The account of a run and of the run that continues it. -/
def followedBy (first second : Run) : Run :=
  { second with records := first.records ++ second.records }

@[simp] theorem results_followedBy (first second : Run) :
    (first.followedBy second).results = first.results ++ second.results :=
  List.map_append

@[simp] theorem reports_followedBy (first second : Run) :
    (first.followedBy second).reports = first.reports ++ second.reports :=
  List.flatMap_append

@[simp] theorem state_followedBy (first second : Run) :
    (first.followedBy second).state = second.state := rfl

@[simp] theorem env_followedBy (first second : Run) :
    (first.followedBy second).env = second.env := rfl

end Run

namespace Engine

theorem results_map_skipped (engine : Engine) (invs : List Invocation) :
    (invs.map engine.skipped).map Record.result =
      invs.map fun inv => ⟨inv.name, engine.description inv.name, ⟨.skipped, none⟩⟩ := by
  rw [List.map_map]
  rfl

theorem reports_map_skipped (engine : Engine) (invs : List Invocation) :
    (invs.map engine.skipped).flatMap Record.reports = [] := by
  rw [List.flatMap_map, List.flatMap_eq_nil_iff]
  exact fun inv _ => rfl

/-! ## Without a time limit -/

section Unlimited

/-- The same engine where nothing but waiting takes time. -/
def instant (engine : Engine) : Engine := { engine with pace := .instant }

variable (engine : Engine) {p : Progress} (h : p.env.remaining = none)

include h

theorem arrival_of_unlimited : engine.arrival p = p.env := Env.elapse_of_unlimited h _

theorem attempt_instant (inv : Invocation) :
    engine.instant.attempt p inv = engine.attempt p inv := by
  have hbound : ({ p.env with store := p.env.store.bind p.bound inv } : Env).remaining = none := h
  unfold attempt instant
  simp only [Env.elapse_of_unlimited hbound]

theorem remaining_attempt (inv : Invocation) :
    (engine.attempt p inv).2.1.remaining = none := by
  rcases engine.attempt_cases p inv with ⟨-, hdid⟩ | ⟨command, -, ⟨-, hdid⟩ | ⟨-, hdid⟩⟩
  · rw [hdid]
    exact h
  · rw [hdid]
    exact h
  · have hbound : ({ p.env with store := p.env.store.bind p.bound inv } : Env).remaining = none := h
    rw [hdid]
    dsimp only [Effect.env, entry]
    rw [Env.elapse_of_unlimited hbound, hbound, Option.bind_none]

/-- Without a time limit the pace does not show in a step, and there is none after it. -/
theorem step_instant (inv : Invocation) :
    engine.instant.step p inv = engine.step p inv ∧
      (engine.step p inv).2.env.remaining = none := by
  have harrival : engine.instant.arrival p = engine.arrival p := by
    rw [engine.arrival_of_unlimited h, engine.instant.arrival_of_unlimited h]
  have hfound : (engine.arrival p).remaining = none := by rw [engine.arrival_of_unlimited h, h]
  rcases engine.step_cases p inv with ⟨hs, hstep⟩ | ⟨hs, hc, hstep⟩ | ⟨hs, hc, hstep⟩
  · rw [hstep, engine.instant.step_of_stopped hs]
    exact ⟨rfl, h⟩
  · rw [hstep, engine.instant.step_of_cancelled hs (harrival ▸ hc), harrival]
    exact ⟨rfl, hfound⟩
  · have hleft := engine.remaining_attempt (p := { p with env := engine.arrival p }) hfound inv
    rw [hstep, engine.instant.step_of_going hs (harrival ▸ hc), harrival,
      engine.attempt_instant (p := { p with env := engine.arrival p }) hfound]
    unfold settle
    simp only [Env.elapse_of_unlimited hleft]
    exact ⟨rfl, hleft⟩

theorem steps_instant (invs : List Invocation) :
    engine.instant.steps p invs = engine.steps p invs ∧
      (engine.steps p invs).2.env.remaining = none := by
  induction invs generalizing p with
  | nil => exact ⟨rfl, h⟩
  | cons inv invs ih =>
    obtain ⟨hstep, hnext⟩ := engine.step_instant h inv
    obtain ⟨hsteps, hlast⟩ := ih hnext
    rw [steps_cons, steps_cons, hstep, hsteps]
    exact ⟨rfl, hlast⟩

end Unlimited

/-- Without a time limit the pace does not show in a run. -/
theorem execute_instant (engine : Engine) {env : Env} (h : env.remaining = none)
    (invs : List Invocation) : engine.instant.execute env invs = engine.execute env invs := by
  have hstart : (Progress.start env).env.remaining = none := h
  obtain ⟨hsteps, hlast⟩ := engine.steps_instant hstart invs
  unfold execute
  rw [hsteps]
  simp only [Env.elapse_of_unlimited hlast]

/-! ## Progress alike -/

variable {engine : Engine} (hpace : engine.pace = .instant)

include hpace

theorem arrival_eq (p : Progress) : engine.arrival p = p.env.elapse 0 := by
  unfold arrival
  rw [hpace]
  rfl

/-- It does not matter how many steps were taken before. -/
theorem attempt_taken (p : Progress) (n : Nat) (inv : Invocation) :
    engine.attempt { p with taken := n } inv = engine.attempt p inv := by
  unfold attempt
  rw [hpace]
  rfl

theorem env_settle (p : Progress) (inv : Invocation) (did : Conduct × Env × Nat) :
    (engine.settle p inv did).env = did.2.1.elapse 0 := by
  unfold settle
  rw [hpace]
  rfl

theorem stopped_settle (p : Progress) (inv : Invocation) (did : Conduct × Env × Nat) :
    (engine.settle p inv did).stopped =
      ((did.2.1.elapse 0).cancelled ||
        (engine.policy == .abort && !(did.1.outcome inv).status.isPass)) := by
  unfold settle
  rw [hpace]
  rfl

/-- From progress alike a step leaves the same record and progress alike. -/
theorem alike_step {p q : Progress} (h : p.Alike q) (inv : Invocation) :
    (engine.step p inv).1 = (engine.step q inv).1 ∧
      (engine.step p inv).2.Alike (engine.step q inv).2 := by
  have harrival : engine.arrival p = engine.arrival q := by
    rw [arrival_eq hpace, arrival_eq hpace, h.env]
  rcases engine.step_cases q inv with ⟨hs, hstep⟩ | ⟨hs, hc, hstep⟩ | ⟨hs, hc, hstep⟩
  · rw [hstep, engine.step_of_stopped (h.stopped.trans hs)]
    exact ⟨rfl, h.env, h.bound, h.stopped⟩
  · rw [hstep, engine.step_of_cancelled (h.stopped.trans hs) (harrival ▸ hc), harrival]
    exact ⟨rfl, rfl, h.bound, rfl⟩
  · have hdid : engine.attempt { p with env := engine.arrival p } inv =
        engine.attempt { q with env := engine.arrival q } inv := by
      rw [← attempt_taken hpace { p with env := engine.arrival p } q.taken, harrival, h.bound,
        h.stopped]
    rw [hstep, engine.step_of_going (h.stopped.trans hs) (harrival ▸ hc), hdid]
    refine ⟨?_, ?_, rfl, ?_⟩
    · simp only [stopped_settle hpace]
    · simp only [env_settle hpace]
    · simp only [stopped_settle hpace]

theorem alike_steps {p q : Progress} (h : p.Alike q) (invs : List Invocation) :
    (engine.steps p invs).1 = (engine.steps q invs).1 ∧
      (engine.steps p invs).2.Alike (engine.steps q invs).2 := by
  induction invs generalizing p q with
  | nil => exact ⟨rfl, h⟩
  | cons inv invs ih =>
    obtain ⟨hrecord, hnext⟩ := alike_step hpace h inv
    obtain ⟨hrecords, hlast⟩ := ih hnext
    rw [steps_cons, steps_cons, hrecord, hrecords]
    exact ⟨rfl, hlast⟩

theorem execute_eq (env : Env) (invs : List Invocation) :
    engine.execute env invs =
      ⟨(engine.steps (.start env) invs).1, (engine.steps (.start env) invs).2.stopped,
        (engine.steps (.start env) invs).2.env.elapse 0⟩ := by
  unfold execute
  rw [hpace]
  rfl

variable {env : Env} {xs : List Invocation}

/-- A run that completes is continued by a run from what it has left. -/
theorem execute_append_of_completed (hkeeps : (engine.execute env xs).KeepsCount)
    (hfirst : (engine.execute env xs).aborted = false) (ys : List Invocation) :
    let first := engine.execute env xs
    engine.execute env (xs ++ ys) = first.followedBy (engine.execute first.env ys) := by
  intro first
  -- the new run reads the number of bound arguments where the continued one has kept it
  have hcounted : (engine.steps (.start env) xs).2.Counted :=
    counted_steps (show (Progress.start env).Counted from rfl) hkeeps
  have halike : (engine.steps (.start env) xs).2.Alike (.start first.env) := by
    have henv : first.env = (engine.steps (.start env) xs).2.env.elapse 0 :=
      congrArg Run.env (execute_eq hpace env xs)
    refine ⟨?_, ?_, hfirst⟩
    · show _ = first.env.elapse 0
      rw [henv, Env.elapse_zero_elapse_zero]
    · show _ = first.env.argumentCount
      rw [henv, Env.argumentCount_elapse]
      exact hcounted
  obtain ⟨hrecords, hlast⟩ := alike_steps hpace halike ys
  rw [execute_eq hpace env, execute_eq hpace first.env, steps_append]
  dsimp only
  rw [hrecords, hlast.stopped, hlast.env]
  rfl

/-- Behind a run that aborts all is skipped. -/
theorem execute_append_of_aborted (hfirst : (engine.execute env xs).aborted = true)
    (ys : List Invocation) :
    let first := engine.execute env xs
    engine.execute env (xs ++ ys) =
      { first with records := first.records ++ ys.map engine.skipped } := by
  intro first
  have hstopped : (engine.steps (.start env) xs).2.stopped = true := hfirst
  have hrun : first = _ := execute_eq hpace env xs
  rw [execute_eq hpace, steps_append, engine.steps_of_stopped hstopped, hrun]

end Engine

end Runbook
