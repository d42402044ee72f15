import Runbook.Proofs.Run.Continuation
import Runbook.Proofs.Run.Shape

/-!
# Aborting and going on

A run that aborts is the front of the run that goes on (`abort_is_front`). The policy does not show
in a step that passes (`steps_under`); at the first step that does not pass the aborting run does
what the other does, and stops there (`step_under_of_not_pass`). So it leaves what the other leaves
of a script that ends at that step.
-/

namespace Runbook

namespace Engine

/-- The same engine with another policy. -/
def under (engine : Engine) (policy : Policy) : Engine := { engine with policy }

variable (engine : Engine)

/-! ## Steps under two policies -/

theorem settle_under {p : Progress} {inv : Invocation} {did : Conduct × Env × Nat}
    (h : (did.1.outcome inv).status = .pass) (policy : Policy) :
    (engine.under policy).settle p inv did = engine.settle p inv did := by
  have hpass : (!(did.1.outcome inv).status.isPass) = false := by
    rw [h]
    rfl
  unfold settle
  dsimp only
  rw [hpass, Bool.and_false, Bool.and_false]
  rfl

theorem settle_under_of_not_pass {p : Progress} {inv : Invocation} {did : Conduct × Env × Nat}
    (h : (did.1.outcome inv).status ≠ .pass) :
    (engine.under .abort).settle p inv did = { engine.settle p inv did with stopped := true } := by
  have hfails : (did.1.outcome inv).status.isPass = false := beq_eq_false_iff_ne.2 h
  unfold settle under
  simp only [hfails, Bool.not_false, Bool.and_true, beq_self_eq_true, Bool.or_true]

/-- The policy does not show in a step that passes. -/
theorem step_under {p : Progress} {inv : Invocation}
    (h : (engine.step p inv).1.status = .pass) (policy : Policy) :
    (engine.under policy).step p inv = engine.step p inv := by
  rcases engine.step_cases p inv with ⟨hs, hstep⟩ | ⟨hs, hc, hstep⟩ | ⟨hs, hc, hstep⟩
  · rw [hstep, (engine.under policy).step_of_stopped hs]
    rfl
  · rw [hstep, (engine.under policy).step_of_cancelled hs hc]
    rfl
  · rw [hstep] at h ⊢
    rw [(engine.under policy).step_of_going hs hc]
    dsimp only
    rw [← engine.settle_under h policy]
    rfl

theorem steps_under {p : Progress} {invs : List Invocation}
    (h : ∀ r ∈ (engine.steps p invs).1, r.status = .pass) (policy : Policy) :
    (engine.under policy).steps p invs = engine.steps p invs := by
  induction invs generalizing p with
  | nil => rfl
  | cons inv invs ih =>
    rw [steps_cons] at h ⊢
    obtain ⟨hfirst, hothers⟩ := List.forall_mem_cons.1 h
    rw [steps_cons, engine.step_under hfirst, ih hothers]

/-- A step that does not pass does the same under the policy to abort, and the run stops there. -/
theorem step_under_of_not_pass {p : Progress} {inv : Invocation}
    (h : (engine.step p inv).1.status ≠ .pass) :
    ((engine.under .abort).step p inv).1.result = (engine.step p inv).1.result ∧
      ((engine.under .abort).step p inv).1.reports = (engine.step p inv).1.reports ∧
      ((engine.under .abort).step p inv).2 = { (engine.step p inv).2 with stopped := true } := by
  rcases engine.step_cases p inv with ⟨hs, hstep⟩ | ⟨hs, hc, hstep⟩ | ⟨hs, hc, hstep⟩
  · rw [hstep, (engine.under .abort).step_of_stopped hs]
    exact ⟨rfl, rfl, by rw [← hs]⟩
  · rw [hstep, (engine.under .abort).step_of_cancelled hs hc]
    exact ⟨rfl, rfl, rfl⟩
  · rw [hstep] at h ⊢
    rw [(engine.under .abort).step_of_going hs hc]
    exact ⟨rfl, rfl, engine.settle_under_of_not_pass h⟩

/-! ## Runs under two policies -/

/-- The steps up to the first that does not pass, and those behind it. -/
theorem steps_under_of_first {p : Progress} {xs ys : List Invocation} {inv : Invocation}
    (hpass : ∀ r ∈ (engine.steps p xs).1, r.status = .pass)
    (hfirst : (engine.step (engine.steps p xs).2 inv).1.status ≠ .pass) :
    let front := engine.steps p (xs ++ [inv])
    let all := (engine.under .abort).steps p (xs ++ inv :: ys)
    all.1.map Record.result = front.1.map Record.result ++
        ys.map (fun inv => ⟨inv.name, engine.description inv.name, ⟨.skipped, none⟩⟩) ∧
      all.1.flatMap Record.reports = front.1.flatMap Record.reports ∧
      all.2.env = front.2.env ∧ all.2.stopped = true := by
  intro front all
  obtain ⟨hresult, hreports, hnext⟩ := engine.step_under_of_not_pass hfirst
  -- the front ends behind the step that does not pass; the aborting run has stopped there
  let next : Progress := { (engine.step (engine.steps p xs).2 inv).2 with stopped := true }
  have hstopped : next.stopped = true := rfl
  have hfront : front = ((engine.steps p xs).1 ++ [(engine.step (engine.steps p xs).2 inv).1],
      (engine.step (engine.steps p xs).2 inv).2) := engine.steps_append p xs [inv]
  have hall : all = ((engine.steps p xs).1 ++
      ((engine.under .abort).step (engine.steps p xs).2 inv).1 :: ys.map engine.skipped,
      { next with taken := next.taken + ys.length }) := by
    show (engine.under .abort).steps p (xs ++ inv :: ys) = _
    rw [steps_append, engine.steps_under hpass, steps_cons, hnext,
      (engine.under .abort).steps_of_stopped hstopped]
    rfl
  rw [hfront, hall]
  refine ⟨?_, ?_, rfl, rfl⟩
  · rw [List.map_append, List.map_cons, engine.results_map_skipped, hresult]
    simp
  · rw [List.flatMap_append, List.flatMap_cons, engine.reports_map_skipped, hreports]
    simp

end Engine

namespace Status

theorem severity_verdict_le {ss ts : List Status}
    (h : ∀ s ∈ ss, ∃ t ∈ ts, s.severity ≤ t.severity) :
    (verdict ss).severity ≤ (verdict ts).severity := by
  by_cases hpass : verdict ss = .pass
  · rw [hpass]
    exact Nat.zero_le _
  · obtain ⟨t, ht, hle⟩ := h _ (verdict_mem hpass)
    exact Nat.le_trans hle (severity_le_verdict ht)

theorem severity_skipped_le {s : Status} (h : s ≠ .pass) : skipped.severity ≤ s.severity := by
  cases s with
  | pass => exact absurd rfl h
  | fail | error | skipped => decide

end Status

/-- The place of the first result that does not pass. -/
def Run.firstNotPass? (run : Run) : Option Nat :=
  run.results.findIdx? (·.outcome.status ≠ .pass)

namespace Engine

variable {engine : Engine} {env : Env} {invs : List Invocation}

/-- The front of a run is the run of the front. -/
theorem take_results {n : Nat} (h : n ≤ invs.length) :
    (engine.execute env invs).results.take n =
      (engine.steps (.start env) (invs.take n)).1.map Record.result := by
  have hlength : (engine.steps (.start env) (invs.take n)).1.length = n := by
    rw [length_steps, List.length_take, Nat.min_eq_left h]
  unfold Run.results
  rw [execute_records, engine.steps_eq_append env invs n, ← List.map_take, List.take_left' hlength]

theorem getElem?_results {i : Nat} (h : i < invs.length) :
    (engine.execute env invs).results[i]? =
      some (engine.step (engine.progress env invs i) invs[i]).1.result := by
  unfold Run.results
  rw [List.getElem?_map, getElem?_records, List.getElem?_eq_getElem h]
  rfl

theorem pass_of_firstNotPass?_eq_none (h : (engine.execute env invs).firstNotPass? = none) :
    ∀ r ∈ (engine.steps (.start env) invs).1, r.status = .pass := by
  intro r hr
  have hresult := List.findIdx?_eq_none_iff.1 h r.result (List.mem_map_of_mem hr)
  exact Decidable.not_not.1 (of_decide_eq_false hresult)

/-- The steps before the first result that does not pass do, and its own does not. -/
theorem steps_of_firstNotPass?_eq_some {j : Nat}
    (h : (engine.execute env invs).firstNotPass? = some j) :
    ∃ hj : j < invs.length,
      (∀ r ∈ (engine.steps (.start env) (invs.take j)).1, r.status = .pass) ∧
      (engine.step (engine.progress env invs j) invs[j]).1.status ≠ .pass := by
  obtain ⟨hlt, hfirst, hbefore⟩ := List.findIdx?_eq_some_iff_getElem.1 h
  have hj : j < invs.length := by simpa [Run.results, execute_records] using hlt
  refine ⟨hj, ?_, ?_⟩
  · intro r hr
    have hmem : r.result ∈ (engine.execute env invs).results.take j := by
      rw [take_results (Nat.le_of_lt hj)]
      exact List.mem_map_of_mem hr
    obtain ⟨i, hi, hresult⟩ := List.mem_take_iff_getElem.1 hmem
    have hnot := hbefore i (by omega)
    rw [hresult] at hnot
    exact Decidable.not_not.1 fun hne => hnot (decide_eq_true hne)
  · have hresult := @getElem?_results engine env invs j hj
    rw [List.getElem?_eq_getElem hlt, Option.some.injEq] at hresult
    rw [hresult] at hfirst
    exact of_decide_eq_true hfirst

end Engine

/-- A run that aborts is the front of the run that goes on, from the same start: up to the first
result that does not pass they agree, and behind it all is skipped. What it leaves is what the other
leaves of the script up to there, and its verdict is no more severe. Without such a result the two
runs are one. -/
theorem abort_is_front (catalog : Catalog) (env : Env) (invs : List Invocation) :
    let lenient : Engine := { catalog, policy := .proceed }
    let strict : Engine := { catalog, policy := .abort }
    let c := lenient.execute env invs
    let a := strict.execute env invs
    match c.firstNotPass? with
    | none => a = c
    | some j =>
      let front := lenient.execute env (invs.take (j + 1))
      a.results = c.results.take (j + 1) ++ (invs.drop (j + 1)).map
          (fun inv => ⟨inv.name, lenient.description inv.name, ⟨.skipped, none⟩⟩) ∧
        a.env = front.env ∧ a.reports = front.reports ∧ a.state = .aborted ∧
        a.verdict.severity ≤ c.verdict.severity := by
  intro lenient strict c a
  have ha : a = _ := @Engine.execute_eq strict rfl env invs
  split
  · rename_i hnone
    have hsteps : strict.steps (.start env) invs = lenient.steps (.start env) invs :=
      lenient.steps_under (Engine.pass_of_firstNotPass?_eq_none hnone) .abort
    rw [ha, hsteps]
    exact (@Engine.execute_eq lenient rfl env invs).symm
  · rename_i j hsome
    obtain ⟨hj, hpass, hfails⟩ := Engine.steps_of_firstNotPass?_eq_some hsome
    have hinvs : invs.take j ++ invs[j] :: invs.drop (j + 1) = invs := by
      rw [← List.drop_eq_getElem_cons, List.take_append_drop]
    have hfront := @Engine.steps_under_of_first lenient (.start env) (invs.take j)
      (invs.drop (j + 1)) invs[j] hpass hfails
    dsimp only at hfront
    rw [hinvs, ← List.take_succ_eq_append_getElem hj] at hfront
    obtain ⟨hresults, hreports, henv, hstopped⟩ := hfront
    have hagree : a.results = c.results.take (j + 1) ++ (invs.drop (j + 1)).map
        (fun inv => ⟨inv.name, lenient.description inv.name, ⟨.skipped, none⟩⟩) := by
      rw [Engine.take_results hj]
      exact hresults
    refine ⟨hagree, ?_, hreports, (Run.state_eq_aborted_iff a).2 hstopped, ?_⟩
    · rw [ha, @Engine.execute_eq lenient rfl]
      exact congrArg (Env.elapse · 0) henv
    · refine Status.severity_verdict_le fun s hs => ?_
      obtain ⟨r, hr, rfl⟩ := (a.mem_statuses s).1 hs
      rw [hagree] at hr
      rcases List.mem_append.1 hr with hr | hr
      · exact ⟨_, (c.mem_statuses _).2 ⟨r, List.mem_of_mem_take hr, rfl⟩, Nat.le_refl _⟩
      · obtain ⟨inv, -, rfl⟩ := List.mem_map.1 hr
        have hmem := List.mem_of_getElem? (@Engine.getElem?_results lenient env invs j hj)
        exact ⟨_, (c.mem_statuses _).2 ⟨_, hmem, rfl⟩, Status.severity_skipped_le hfails⟩

end Runbook
