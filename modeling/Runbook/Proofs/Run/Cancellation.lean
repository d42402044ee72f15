import Runbook.Command.Probe
import Runbook.Proofs.Run.Shape

/-!
# Cancelled runs

A run whose token is set at its start, or becomes set while a step is under way, ends aborted, and
no body runs after that step (`cancelled_run`). Whether it has an error among its results depends on
the body in flight: one that ends on its own with another status keeps that status, so a cancelled
run can even pass (`cancelled_run_may_pass`).
-/

namespace Runbook

/-- The body ran to its end on its own, and not in an error. -/
def Conduct.Completes (c : Conduct) : Prop :=
  ∃ command found effect outcome, c = .ran command found effect ∧
    effect.ending = .finished outcome ∧ outcome.status ≠ .error

/-- Of the steps that are attempted, just those whose body completes are no errors. -/
theorem Conduct.status_ne_error_iff {c : Conduct} (h : c ≠ .skipped) (inv : Invocation) :
    (c.outcome inv).status ≠ .error ↔ c.Completes := by
  constructor
  · intro hne
    cases c with
    | skipped => exact absurd rfl h
    | cancelled | unknown | short => exact absurd rfl hne
    | ran command found effect =>
      have hending : (effect.ending.outcome command.name).status ≠ .error := hne
      cases he : effect.ending with
      | finished outcome =>
        rw [he] at hending
        exact ⟨command, found, effect, outcome, rfl, he, hending⟩
      | failed | cancelled | crashed =>
        rw [he] at hending
        exact absurd rfl hending
  · rintro ⟨command, found, effect, outcome, rfl, he, hne⟩
    show (effect.ending.outcome command.name).status ≠ .error
    rw [he]
    exact hne

namespace Engine

variable (engine : Engine) (env : Env) (invs : List Invocation)

instance (i : Nat) : Decidable (engine.CancelledBefore env invs i) :=
  inferInstanceAs (Decidable (_ = true))

instance (i : Nat) : Decidable (engine.CancelledAfter env invs i) :=
  inferInstanceAs (Decidable (_ = true))

/-- The token is set when the run starts, and then `i` is the first invocation; or invocation `i` is
attempted, and the token becomes set meanwhile and stays so. -/
def CancelledDuring (i : Nat) : Prop :=
  (i = 0 ∧ env.cancelled = true) ∨
    (engine.progress env invs i).stopped = false ∧ ¬ engine.CancelledBefore env invs i ∧
      engine.CancelledAfter env invs i

instance (i : Nat) : Decidable (engine.CancelledDuring env invs i) :=
  inferInstanceAs (Decidable (_ ∨ _))

variable {engine env invs} {i : Nat}

theorem cancelledBefore_zero (h : env.cancelled = true) : engine.CancelledBefore env invs 0 :=
  Env.cancelled_elapse h _

theorem CancelledDuring.going (h : engine.CancelledDuring env invs i) :
    (engine.progress env invs i).stopped = false := by
  rcases h with ⟨rfl, -⟩ | ⟨hs, -, -⟩
  · rfl
  · exact hs

theorem CancelledDuring.stopsAt (h : engine.CancelledDuring env invs i) :
    engine.StopsAt env invs i := by
  rcases h with ⟨rfl, hc⟩ | ⟨-, -, hc⟩
  · exact .inl (cancelledBefore_zero hc)
  · exact .inr (.inl hc)

/-- The step under way when the token is set is the last one that is attempted. -/
theorem CancelledDuring.attempts (h : engine.CancelledDuring env invs i) (hi : i < invs.length) :
    engine.Attempts env invs (i + 1) := by
  have hsucc := (engine.stopped_succ_iff env invs hi h.going).2 h.stopsAt
  refine ⟨hi, fun l hl => ?_, fun l hl _ => (engine.progress_of_stopped env invs hsucc hl).1⟩
  by_cases hs : (engine.progress env invs l).stopped = true
  · have := (engine.progress_of_stopped env invs hs (Nat.le_of_lt_succ hl)).1
    rw [h.going] at this
    exact absurd this Bool.false_ne_true
  · exact (Bool.not_eq_true _).mp hs

/-- A run that is cancelled from the start refuses its first invocation and skips the others. -/
theorem conduct_of_cancelled (h : env.cancelled = true) {r : Record}
    (hr : r ∈ (engine.execute env invs).records) : r.conduct = .cancelled ∨ r.conduct = .skipped := by
  cases invs with
  | nil => exact absurd hr List.not_mem_nil
  | cons inv invs =>
    have hc : (engine.arrival (.start env)).cancelled = true := Env.cancelled_elapse h _
    rw [execute_records, steps_cons, engine.step_of_cancelled rfl hc,
      engine.steps_of_stopped rfl] at hr
    rcases List.mem_cons.1 hr with rfl | hr
    · exact .inl rfl
    · obtain ⟨inv', -, rfl⟩ := List.mem_map.1 hr
      exact .inr rfl

/-- Skipped invocations are no errors, so an error is found among the attempted ones. -/
theorem Attempts.error_mem_iff {k : Nat} (h : engine.Attempts env invs k) :
    .error ∈ (engine.execute env invs).statuses ↔
      ∃ j < k, (engine.execute env invs).statuses[j]? = some .error := by
  constructor
  · intro herror
    obtain ⟨j, hj⟩ := List.getElem?_of_mem herror
    refine ⟨j, Nat.lt_of_not_le fun hkj => ?_, hj⟩
    have hdrop : (engine.execute env invs).records[j]? =
        ((invs.drop k).map engine.skipped)[j - k]? := by
      rw [← h.drop_records, List.getElem?_drop, Nat.add_sub_cancel' hkj]
    unfold Run.statuses at hj
    rw [List.getElem?_map, hdrop, List.getElem?_map, Option.map_map] at hj
    obtain ⟨inv, -, hinv⟩ := Option.map_eq_some_iff.1 hj
    exact nomatch hinv
  · rintro ⟨j, -, hj⟩
    exact List.mem_of_getElem? hj

variable (engine env invs)

/-- A run that is cancelled during invocation `i` ends aborted, skips all later invocations, and if
it was cancelled from the start runs no body at all. It has an error among its results, and so for
its verdict, unless the body in flight completes and no earlier step was an error. -/
theorem cancelled_run (hi : i < invs.length) (h : engine.CancelledDuring env invs i) :
    let run := engine.execute env invs
    run.state = .aborted ∧
    (∀ r ∈ run.records.drop (i + 1), r.conduct = .skipped) ∧
    (env.cancelled = true → ∀ r ∈ run.records, r.conduct = .cancelled ∨ r.conduct = .skipped) ∧
    (run.verdict = .error ↔ .error ∈ run.statuses) ∧
    (.error ∈ run.statuses ↔
      (∃ j < i, run.statuses[j]? = some .error) ∨
        ¬ ∃ r, run.records[i]? = some r ∧ r.conduct.Completes) := by
  intro run
  have hk := h.attempts hi
  obtain ⟨r, hr⟩ : ∃ r, run.records[i]? = some r := by
    rw [getElem?_records, List.getElem?_eq_getElem hi]
    exact ⟨_, rfl⟩
  have hstatus : run.statuses[i]? = some r.status := by
    unfold Run.statuses
    rw [List.getElem?_map, hr, Option.map_some]
  have hcompletes : r.status ≠ .error ↔ r.conduct.Completes :=
    Conduct.status_ne_error_iff (hk.attempted (Nat.lt_succ_self i) hr).1 r.invocation
  refine ⟨?_, ?_, fun hc r hr => conduct_of_cancelled hc hr, Status.verdict_eq_error_iff _, ?_⟩
  · have haborted : run.aborted = true := by
      rw [execute_aborted]
      exact hk.stopped_iff.2 ⟨i, hi, h.stopsAt⟩
    exact run.state_eq_aborted_iff.2 haborted
  · intro r hr
    exact (hk.skipped_of_mem_drop hr).1
  · rw [hk.error_mem_iff]
    constructor
    · rintro ⟨j, hj, herror⟩
      rcases Nat.lt_succ_iff_lt_or_eq.1 hj with hlt | rfl
      · exact .inl ⟨j, hlt, herror⟩
      · right
        rintro ⟨r', hr', hcomplete⟩
        obtain rfl : r = r' := Option.some.inj (hr.symm.trans hr')
        exact hcompletes.2 hcomplete (Option.some.inj (hstatus.symm.trans herror))
    · rintro (⟨j, hj, herror⟩ | hnot)
      · exact ⟨j, Nat.lt_succ_of_lt hj, herror⟩
      · refine ⟨i, Nat.lt_succ_self i, ?_⟩
        by_cases he : r.status = .error
        · rw [hstatus, he]
        · exact absurd ⟨r, hr, hcompletes.1 he⟩ hnot

/-- A body that cancels its run and gives up, between two invocations without a command. -/
theorem cancelled_run_giving_up :
    let engine : Engine :=
      { catalog := ⟨[Probe.cancelRun.command "Stop" "" 0], by decide⟩
        policy := .proceed }
    let env : Env := ⟨"default", ∅, false, none⟩
    let invs : List Invocation := [⟨"Lost", [], 1, 0⟩, ⟨"Stop", [], 2, 5⟩, ⟨"Lost", [], 3, 10⟩]
    let run := engine.execute env invs
    1 < invs.length ∧ engine.CancelledDuring env invs 1 ∧ run.state = .aborted ∧
      (∀ r ∈ run.records.drop 2, r.conduct = .skipped) ∧ run.verdict = .error := by
  intro engine env invs run
  have hi : 1 < invs.length := by decide
  have hduring : engine.CancelledDuring env invs 1 := by decide
  obtain ⟨hstate, hskipped, -, hverdict, herror⟩ := engine.cancelled_run env invs hi hduring
  exact ⟨hi, hduring, hstate, hskipped, hverdict.2 (herror.2 (.inl ⟨0, by decide, by decide⟩))⟩

/-- A body that cancels its run and passes: the run is aborted, but nothing in it is an error. -/
theorem cancelled_run_may_pass :
    let engine : Engine :=
      { catalog := ⟨[Probe.cancelPass.command "Stop" "" 0], by decide⟩
        policy := .proceed }
    let env : Env := ⟨"default", ∅, false, none⟩
    let invs : List Invocation := [⟨"Stop", [], 1, 0⟩]
    let run := engine.execute env invs
    engine.CancelledDuring env invs 0 ∧ run.state = .aborted ∧ .error ∉ run.statuses ∧
      run.verdict = .pass := by
  decide

end Engine

end Runbook
