import Runbook.Proofs.Run.Steps
import Runbook.Run.Event

/-!
# The shape of a run

A run attempts its first `k` invocations and skips the others. `StopsAt` says, without looking at
what the run did with its records, at which invocations a run has reason to stop: it finds itself
cancelled before or after the step, or the step did not pass and the policy is to abort. The number
`k` is one more than the first such invocation, or the number of all of them.

`execute_shape` puts this together with the names and descriptions of the results, the state in
which the run ends, and the verdict.
-/

namespace Runbook

/-! ## The verdict -/

namespace Status

theorem severity_injective {s t : Status} (h : s.severity = t.severity) : s = t := by
  cases s <;> cases t <;> first | rfl | exact absurd h (by decide)

theorem le_severity_worse_left (a b : Status) : a.severity ≤ (worse a b).severity := by
  unfold worse
  split
  · assumption
  · exact Nat.le_refl _

theorem le_severity_worse_right (a b : Status) : b.severity ≤ (worse a b).severity := by
  unfold worse
  split
  · exact Nat.le_refl _
  · omega

theorem worse_eq_or (a b : Status) : worse a b = a ∨ worse a b = b := by
  unfold worse
  split
  · exact .inr rfl
  · exact .inl rfl

theorem foldl_worse_ge (a : Status) (ss : List Status) :
    a.severity ≤ (ss.foldl worse a).severity ∧
      ∀ s ∈ ss, s.severity ≤ (ss.foldl worse a).severity := by
  induction ss generalizing a with
  | nil => exact ⟨Nat.le_refl _, fun s hs => nomatch hs⟩
  | cons b ss ih =>
    obtain ⟨hab, hss⟩ := ih (worse a b)
    rw [List.foldl_cons]
    refine ⟨Nat.le_trans (le_severity_worse_left a b) hab, ?_⟩
    intro s hs
    rcases List.mem_cons.1 hs with rfl | hs
    · exact Nat.le_trans (le_severity_worse_right a s) hab
    · exact hss s hs

theorem foldl_worse_mem (a : Status) (ss : List Status) :
    ss.foldl worse a = a ∨ ss.foldl worse a ∈ ss := by
  induction ss generalizing a with
  | nil => exact .inl rfl
  | cons b ss ih =>
    rw [List.foldl_cons]
    rcases ih (worse a b) with h | h
    · rcases worse_eq_or a b with hw | hw
      · exact .inl (h.trans hw)
      · rw [h, hw]
        exact .inr List.mem_cons_self
    · exact .inr (List.mem_cons_of_mem b h)

theorem severity_le_verdict {s : Status} {ss : List Status} (h : s ∈ ss) :
    s.severity ≤ (verdict ss).severity :=
  (foldl_worse_ge .pass ss).2 s h

theorem verdict_mem {ss : List Status} (h : verdict ss ≠ .pass) : verdict ss ∈ ss :=
  (foldl_worse_mem .pass ss).resolve_left h

theorem verdict_eq_pass_iff (ss : List Status) : verdict ss = .pass ↔ ∀ s ∈ ss, s = .pass := by
  constructor
  · intro h s hs
    have hle := severity_le_verdict hs
    rw [h] at hle
    exact severity_injective (Nat.le_zero.1 hle)
  · intro h
    by_cases hv : verdict ss = .pass
    · exact hv
    · exact h _ (verdict_mem hv)

theorem verdict_eq_error_iff (ss : List Status) : verdict ss = .error ↔ .error ∈ ss := by
  constructor
  · intro h
    have hne : verdict ss ≠ .pass := by
      rw [h]
      decide
    have hmem := verdict_mem hne
    rwa [h] at hmem
  · intro h
    have hle := severity_le_verdict h
    cases hv : verdict ss <;> rw [hv] at hle <;> first | rfl | exact absurd hle (by decide)

end Status

namespace Run

variable (run : Run)

theorem statuses_eq : run.statuses = run.results.map (·.outcome.status) := by
  unfold Run.results
  rw [List.map_map]
  rfl

theorem mem_statuses (s : Status) :
    s ∈ run.statuses ↔ ∃ r ∈ run.results, r.outcome.status = s := by
  rw [statuses_eq, List.mem_map]

theorem verdict_eq_pass_iff : run.verdict = .pass ↔ ∀ r ∈ run.results, r.outcome.status = .pass := by
  unfold Run.verdict
  rw [Status.verdict_eq_pass_iff]
  constructor
  · intro h r hr
    exact h _ ((run.mem_statuses _).2 ⟨r, hr, rfl⟩)
  · intro h s hs
    obtain ⟨r, hr, rfl⟩ := (run.mem_statuses s).1 hs
    exact h r hr

theorem state_eq_aborted_iff : run.state = .aborted ↔ run.aborted = true := by
  unfold Run.state
  cases run.aborted <;> decide

theorem state_eq_completed_iff : run.state = .completed ↔ ¬ run.aborted = true := by
  unfold Run.state
  cases run.aborted <;> decide

end Run

namespace Engine

variable (engine : Engine) (env : Env) (invs : List Invocation)

/-! ## Reasons to stop -/

/-- The run is found cancelled before invocation `i`. -/
def CancelledBefore (i : Nat) : Prop :=
  (engine.arrival (engine.progress env invs i)).cancelled = true

/-- The run is found cancelled after invocation `i`. -/
def CancelledAfter (i : Nat) : Prop := (engine.progress env invs (i + 1)).env.cancelled = true

/-- Invocation `i` gives the run a reason to stop. -/
def StopsAt (i : Nat) : Prop :=
  engine.CancelledBefore env invs i ∨ engine.CancelledAfter env invs i ∨
    engine.policy = .abort ∧ (engine.execute env invs).statuses[i]? ≠ some .pass

theorem getElem?_statuses {i : Nat} (h : i < invs.length) :
    (engine.execute env invs).statuses[i]? =
      some (engine.step (engine.progress env invs i) invs[i]).1.status := by
  unfold Run.statuses
  rw [List.getElem?_map, getElem?_records, List.getElem?_eq_getElem h]
  rfl

theorem stopped_succ_iff {i : Nat} (h : i < invs.length)
    (hs : (engine.progress env invs i).stopped = false) :
    (engine.progress env invs (i + 1)).stopped = true ↔ engine.StopsAt env invs i := by
  have hstep := engine.stops_step_iff hs invs[i]
  rw [← engine.progress_succ env invs h] at hstep
  unfold StopsAt
  rw [getElem?_statuses engine env invs h, ne_eq, Option.some.injEq]
  exact hstep

/-! ## Attempted and skipped invocations -/

/-- The first `k` invocations of the run were attempted and the others skipped. -/
structure Attempts (k : Nat) : Prop where
  le_length : k ≤ invs.length
  going : ∀ i < k, (engine.progress env invs i).stopped = false
  stopped : ∀ i, k ≤ i → i < invs.length → (engine.progress env invs i).stopped = true

/-- Once a run has stopped it stays so, hence there is one place from which on it has. -/
theorem exists_attempts : ∃ k, engine.Attempts env invs k := by
  have cut : ∀ n ≤ invs.length, ∃ k ≤ n, (∀ i < k, (engine.progress env invs i).stopped = false) ∧
      ∀ i, k ≤ i → i < n → (engine.progress env invs i).stopped = true := by
    intro n hn
    induction n with
    | zero =>
      refine ⟨0, Nat.le_refl 0, fun i hi => ?_, fun i _ hi => ?_⟩ <;> exact absurd hi (by omega)
    | succ n ih =>
      obtain ⟨k, hk, going, stopped⟩ := ih (by omega)
      by_cases hs : (engine.progress env invs n).stopped = true
      · refine ⟨k, by omega, going, fun i hki hi => ?_⟩
        rcases Nat.lt_succ_iff_lt_or_eq.1 hi with hi | rfl
        · exact stopped i hki hi
        · exact hs
      · rw [Bool.not_eq_true] at hs
        refine ⟨n + 1, Nat.le_refl _, fun i hi => ?_, fun i hni hi => by omega⟩
        -- before a place at which the run has not stopped, it has not stopped either
        by_cases hi' : (engine.progress env invs i).stopped = true
        · have := (engine.progress_of_stopped env invs hi' (Nat.le_of_lt_succ hi)).1
          rw [hs] at this
          exact absurd this Bool.false_ne_true
        · exact (Bool.not_eq_true _).mp hi'
  obtain ⟨k, hk, going, stopped⟩ := cut invs.length (Nat.le_refl _)
  exact ⟨k, hk, going, stopped⟩

namespace Attempts

variable {engine env invs} {k : Nat}

theorem stopped_of_lt (h : engine.Attempts env invs k) (hk : k < invs.length) :
    (engine.progress env invs k).stopped = true := h.stopped k (Nat.le_refl k) hk

/-- A run that has stopped did so at the last invocation that it attempted. -/
theorem exists_stopsAt (h : engine.Attempts env invs k)
    (hk : (engine.progress env invs k).stopped = true) :
    ∃ j, k = j + 1 ∧ engine.StopsAt env invs j := by
  cases k with
  | zero => exact absurd hk Bool.false_ne_true
  | succ j =>
    have hj : j < invs.length := h.le_length
    exact ⟨j, rfl, (engine.stopped_succ_iff env invs hj (h.going j (Nat.lt_succ_self j))).1 hk⟩

theorem not_stopsAt (h : engine.Attempts env invs k) {i : Nat} (hi : i + 1 < k) :
    ¬ engine.StopsAt env invs i := by
  intro hstops
  have hn : i < invs.length := Nat.lt_of_lt_of_le (by omega) h.le_length
  have hsucc := (engine.stopped_succ_iff env invs hn (h.going i (by omega))).2 hstops
  rw [h.going (i + 1) hi] at hsucc
  exact Bool.false_ne_true hsucc

/-- The number of attempted invocations is one more than the first at which the run stops. -/
theorem eq_succ_of_first (h : engine.Attempts env invs k) {j : Nat} (hj : j < invs.length)
    (hstops : engine.StopsAt env invs j) (hfirst : ∀ i < j, ¬ engine.StopsAt env invs i) :
    k = j + 1 := by
  rcases Nat.lt_trichotomy k (j + 1) with hlt | heq | hgt
  · obtain ⟨i, rfl, hi⟩ := h.exists_stopsAt (h.stopped_of_lt (by omega))
    exact absurd hi (hfirst i (by omega))
  · exact heq
  · exact absurd hstops (h.not_stopsAt hgt)

theorem eq_length (h : engine.Attempts env invs k)
    (hnone : ∀ j < invs.length, ¬ engine.StopsAt env invs j) : k = invs.length := by
  by_cases hk : k < invs.length
  · obtain ⟨j, rfl, hj⟩ := h.exists_stopsAt (h.stopped_of_lt hk)
    exact absurd hj (hnone j (by omega))
  · exact Nat.le_antisymm h.le_length (Nat.le_of_not_lt hk)

theorem stopped_iff (h : engine.Attempts env invs k) :
    (engine.progress env invs invs.length).stopped = true ↔
      ∃ j < invs.length, engine.StopsAt env invs j := by
  constructor
  · intro hlast
    have hk : (engine.progress env invs k).stopped = true := by
      by_cases hk : k < invs.length
      · exact h.stopped_of_lt hk
      · rwa [Nat.le_antisymm h.le_length (Nat.le_of_not_lt hk)]
    obtain ⟨j, rfl, hj⟩ := h.exists_stopsAt hk
    exact ⟨j, h.le_length, hj⟩
  · rintro ⟨j, hj, hstops⟩
    by_cases hjk : j < k
    · have hsucc := (engine.stopped_succ_iff env invs hj (h.going j hjk)).2 hstops
      exact (engine.progress_of_stopped env invs hsucc hj).1
    · have hs := h.stopped j (Nat.le_of_not_lt hjk) hj
      exact (engine.progress_of_stopped env invs hs (Nat.le_of_lt hj)).1

/-- The surroundings at the end are those that the last attempted step left. -/
theorem env_eq (h : engine.Attempts env invs k) :
    (engine.progress env invs invs.length).env = (engine.progress env invs k).env := by
  by_cases hk : k < invs.length
  · exact (engine.progress_of_stopped env invs (h.stopped_of_lt hk) h.le_length).2
  · rw [Nat.le_antisymm h.le_length (Nat.le_of_not_lt hk)]

/-- The records after the attempted ones are those of skipped invocations. -/
theorem drop_records (h : engine.Attempts env invs k) :
    (engine.execute env invs).records.drop k = (invs.drop k).map engine.skipped := by
  have hl : (engine.steps (.start env) (invs.take k)).1.length = k := by
    rw [length_steps, List.length_take, Nat.min_eq_left h.le_length]
  rw [execute_records, engine.steps_eq_append env invs k, List.drop_left' hl]
  by_cases hk : k < invs.length
  · rw [engine.steps_of_stopped (h.stopped_of_lt hk)]
  · rw [List.drop_eq_nil_of_le (Nat.le_of_not_lt hk)]
    rfl

theorem skipped_of_mem_drop (h : engine.Attempts env invs k) {r : Record}
    (hr : r ∈ (engine.execute env invs).records.drop k) :
    r.conduct = .skipped ∧ r.outcome = ⟨.skipped, none⟩ := by
  rw [h.drop_records] at hr
  obtain ⟨inv, -, rfl⟩ := List.mem_map.1 hr
  exact ⟨rfl, rfl⟩

/-- An attempted invocation is not skipped, and its record tells whether the run stops there. -/
theorem attempted (h : engine.Attempts env invs k) {i : Nat} (hi : i < k) {r : Record}
    (hr : (engine.execute env invs).records[i]? = some r) :
    r.conduct ≠ .skipped ∧ (r.stops = true ↔ engine.StopsAt env invs i) := by
  have hn : i < invs.length := Nat.lt_of_lt_of_le hi h.le_length
  rw [getElem?_records, List.getElem?_eq_getElem hn, Option.map_some, Option.some.injEq] at hr
  subst hr
  refine ⟨engine.conduct_step_ne_skipped (h.going i hi) _, ?_⟩
  rw [engine.stops_step (h.going i hi), ← engine.progress_succ env invs hn]
  exact engine.stopped_succ_iff env invs hn (h.going i hi)

/-- Skipped invocations report nothing. -/
theorem reports_eq (h : engine.Attempts env invs k) :
    (engine.execute env invs).reports =
      ((engine.execute env invs).records.take k).flatMap Record.reports := by
  have hskipped : ((engine.execute env invs).records.drop k).flatMap Record.reports = [] := by
    rw [h.drop_records, List.flatMap_eq_nil_iff]
    intro r hr
    obtain ⟨inv, -, rfl⟩ := List.mem_map.1 hr
    rfl
  unfold Run.reports
  rw [← List.append_nil (List.flatMap _ (List.take _ _)), ← hskipped, ← List.flatMap_append,
    List.take_append_drop]

end Attempts

/-- The results of a run are one for each invocation, in order and under its name. There is a number
of attempted invocations, one more than the first at which the run stops, or all of them; the others
are skipped, and what the run leaves is what the last attempted one left, except that a time limit
may still strike after it. -/
theorem execute_shape :
    let run := engine.execute env invs
    let n := invs.length
    run.results.map (·.name) = invs.map (·.name) ∧
    run.results.map (·.description) =
      invs.map (fun inv => ((engine.catalog.find? inv.name).map (·.description)).getD "") ∧
    (∃ k ≤ n,
      (∀ i < k, ∀ r, run.records[i]? = some r →
        r.conduct ≠ .skipped ∧ (r.stops = true ↔ engine.StopsAt env invs i)) ∧
      (∀ r ∈ run.records.drop k, r.conduct = .skipped ∧ r.outcome = ⟨.skipped, none⟩) ∧
      run.reports = (run.records.take k).flatMap Record.reports ∧
      run.env.store = (engine.progress env invs k).env.store ∧
      run.env = (engine.progress env invs k).env.elapse (engine.pace.arriving n) ∧
      (∀ j < n, engine.StopsAt env invs j → (∀ i < j, ¬ engine.StopsAt env invs i) → k = j + 1) ∧
      ((∀ j < n, ¬ engine.StopsAt env invs j) → k = n)) ∧
    (run.state = .aborted ↔ ∃ j < n, engine.StopsAt env invs j) ∧
    (run.state = .completed ↔ ∀ j < n, ¬ engine.StopsAt env invs j) ∧
    (run.verdict = .pass ↔ ∀ r ∈ run.results, r.outcome.status = .pass) ∧
    (run.verdict ≠ .pass → ∃ r ∈ run.results, r.outcome.status = run.verdict) ∧
    ∀ r ∈ run.results, r.outcome.status.severity ≤ run.verdict.severity := by
  intro run n
  obtain ⟨k, hk⟩ := engine.exists_attempts env invs
  have haborted : run.aborted = true ↔ ∃ j < n, engine.StopsAt env invs j := by
    rw [execute_aborted]
    exact hk.stopped_iff
  have hcompleted : run.state = .completed ↔ ∀ j < n, ¬ engine.StopsAt env invs j := by
    rw [run.state_eq_completed_iff, haborted]
    simp only [not_exists, not_and]
  have henv : run.env = (engine.progress env invs k).env.elapse (engine.pace.arriving n) := by
    rw [execute_env, hk.env_eq]
  have hstore : run.env.store = (engine.progress env invs k).env.store := by
    rw [henv, Env.store_elapse]
  refine ⟨engine.names_execute env invs, engine.descriptions_execute env invs,
    ⟨k, hk.le_length, fun i hi r hr => hk.attempted hi hr, fun r hr => hk.skipped_of_mem_drop hr,
      hk.reports_eq, hstore, henv, fun j hj => hk.eq_succ_of_first hj, hk.eq_length⟩,
    run.state_eq_aborted_iff.trans haborted, hcompleted, run.verdict_eq_pass_iff, ?_, ?_⟩
  · intro hv
    exact (run.mem_statuses _).1 (Status.verdict_mem hv)
  · intro r hr
    exact Status.severity_le_verdict ((run.mem_statuses _).2 ⟨r, hr, rfl⟩)

end Engine

end Runbook
