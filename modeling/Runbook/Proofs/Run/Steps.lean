import Runbook.Proofs.Catalog.Lookup
import Runbook.Run

/-!
# The steps of a run

What a run does with an invocation depends only on the progress before it. This file says once what
one step can do (`step_of_stopped`, `step_of_cancelled`, `step_of_going`, together `step_cases`,
with `attempt_cases` for the body) and what follows for rows of steps: they compose
(`steps_append`), a row of steps has one record for each invocation (`length_steps`), and after a
stop nothing happens (`steps_of_stopped`).

`progress` is where a run stands before an invocation. Going from one to the next is one step
(`progress_succ`), and the record of an invocation is the one of that step (`getElem?_records`).
-/

namespace Runbook

/-! ## Time -/

namespace Env

theorem store_elapse (env : Env) (n : Nat) : (env.elapse n).store = env.store := by
  unfold elapse
  split
  · rfl
  · split <;> rfl

/-- Without a time limit no time passes that the run could notice. -/
theorem elapse_of_unlimited {env : Env} (h : env.remaining = none) (n : Nat) :
    env.elapse n = env := by
  unfold elapse
  rw [h]

theorem cancelled_elapse {env : Env} (h : env.cancelled = true) (n : Nat) :
    (env.elapse n).cancelled = true := by
  unfold elapse
  split
  · exact h
  · split
    · rfl
    · exact h

end Env

namespace Engine

variable (engine : Engine)

/-! ## One step -/

/-- The record of an invocation that comes after a stop. -/
def skipped (inv : Invocation) : Record := ⟨inv, engine.description inv.name, .skipped, false⟩

/-- What the run finds when it looks at its cancellation before an invocation. -/
def arrival (p : Progress) : Env := p.env.elapse (engine.pace.arriving p.taken)

/-- What the body of a command finds: the arguments are bound, and some time has passed. -/
def entry (p : Progress) (inv : Invocation) : Env :=
  ({ p.env with store := p.env.store.bind p.bound inv } : Env).elapse (engine.pace.entering p.taken)

theorem step_of_stopped {p : Progress} (h : p.stopped = true) (inv : Invocation) :
    engine.step p inv = (engine.skipped inv, { p with taken := p.taken + 1 }) := by
  unfold step
  rw [if_pos h]
  rfl

theorem step_of_cancelled {p : Progress} (hs : p.stopped = false)
    (hc : (engine.arrival p).cancelled = true) (inv : Invocation) :
    engine.step p inv =
      (⟨inv, engine.description inv.name, .cancelled, true⟩,
        ⟨engine.arrival p, p.bound, true, p.taken + 1⟩) := by
  unfold step
  rw [if_neg (by simp [hs])]
  exact if_pos hc

/-- The progress after an invocation was attempted with the given conduct, surroundings and number
of bound arguments. -/
def settle (p : Progress) (inv : Invocation) (did : Conduct × Env × Nat) : Progress :=
  let env := did.2.1.elapse (engine.pace.leaving p.taken)
  let passed := (did.1.outcome inv).status.isPass
  ⟨env, did.2.2, env.cancelled || (engine.policy == .abort && !passed), p.taken + 1⟩

theorem step_of_going {p : Progress} (hs : p.stopped = false)
    (hc : (engine.arrival p).cancelled = false) (inv : Invocation) :
    engine.step p inv =
      let did := engine.attempt { p with env := engine.arrival p } inv
      (⟨inv, engine.description inv.name, did.1, (engine.settle p inv did).stopped⟩,
        engine.settle p inv did) := by
  unfold step
  rw [if_neg (by simp [hs])]
  exact if_neg (by rw [← arrival, hc]; exact Bool.false_ne_true)

/-- The three ways of a step: the run has stopped before, it is found cancelled, or the invocation
is attempted. -/
theorem step_cases (p : Progress) (inv : Invocation) :
    (p.stopped = true ∧
      engine.step p inv = (engine.skipped inv, { p with taken := p.taken + 1 })) ∨
    (p.stopped = false ∧ (engine.arrival p).cancelled = true ∧
      engine.step p inv =
        (⟨inv, engine.description inv.name, .cancelled, true⟩,
          ⟨engine.arrival p, p.bound, true, p.taken + 1⟩)) ∨
    (p.stopped = false ∧ (engine.arrival p).cancelled = false ∧
      engine.step p inv =
        let did := engine.attempt { p with env := engine.arrival p } inv
        (⟨inv, engine.description inv.name, did.1, (engine.settle p inv did).stopped⟩,
          engine.settle p inv did)) := by
  by_cases hs : p.stopped = true
  · exact .inl ⟨hs, engine.step_of_stopped hs inv⟩
  rw [Bool.not_eq_true] at hs
  by_cases hc : (engine.arrival p).cancelled = true
  · exact .inr (.inl ⟨hs, hc, engine.step_of_cancelled hs hc inv⟩)
  rw [Bool.not_eq_true] at hc
  exact .inr (.inr ⟨hs, hc, engine.step_of_going hs hc inv⟩)

theorem attempt_of_find? {inv : Invocation} {command : Command}
    (hfind : engine.catalog.find? inv.name = some command)
    (hn : command.minArguments ≤ inv.arguments.length) (p : Progress) :
    engine.attempt p inv =
      (.ran command (engine.entry p inv) (command.body (engine.entry p inv)),
        (command.body (engine.entry p inv)).env (engine.entry p inv), inv.arguments.length) := by
  unfold attempt
  rw [hfind]
  exact if_neg (Nat.not_lt.2 hn)

/-- The three ways of an attempt: there is no command, it wants more arguments, or its body runs. -/
theorem attempt_cases (p : Progress) (inv : Invocation) :
    (engine.catalog.find? inv.name = none ∧ engine.attempt p inv = (.unknown, p.env, p.bound)) ∨
    ∃ command, engine.catalog.find? inv.name = some command ∧
      ((inv.arguments.length < command.minArguments ∧
          engine.attempt p inv = (.short command, p.env, p.bound)) ∨
        (command.minArguments ≤ inv.arguments.length ∧
          engine.attempt p inv =
            (.ran command (engine.entry p inv) (command.body (engine.entry p inv)),
              (command.body (engine.entry p inv)).env (engine.entry p inv),
              inv.arguments.length))) := by
  cases hf : engine.catalog.find? inv.name with
  | none =>
    refine .inl ⟨rfl, ?_⟩
    unfold attempt
    rw [hf]
  | some command =>
    refine .inr ⟨command, rfl, ?_⟩
    by_cases hn : inv.arguments.length < command.minArguments
    · refine .inl ⟨hn, ?_⟩
      unfold attempt
      rw [hf]
      exact if_pos hn
    · exact .inr ⟨Nat.le_of_not_lt hn, engine.attempt_of_find? hf (Nat.le_of_not_lt hn) p⟩

/-- Whatever a step does, it is listed under the name of its invocation. -/
theorem name_step (p : Progress) (inv : Invocation) : (engine.step p inv).1.name = inv.name := by
  by_cases hs : p.stopped = true
  · rw [engine.step_of_stopped hs]
    rfl
  · rw [Bool.not_eq_true] at hs
    by_cases hc : (engine.arrival p).cancelled = true
    · rw [engine.step_of_cancelled hs hc]
      rfl
    · rw [Bool.not_eq_true] at hc
      rw [engine.step_of_going hs hc]
      rcases engine.attempt_cases { p with env := engine.arrival p } inv with
        ⟨-, h⟩ | ⟨command, hf, ⟨-, h⟩ | ⟨-, h⟩⟩
      · rw [h]
        rfl
      · rw [h]
        exact Catalog.name_of_find? hf
      · rw [h]
        exact Catalog.name_of_find? hf

theorem description_step (p : Progress) (inv : Invocation) :
    (engine.step p inv).1.description = engine.description inv.name := by
  unfold step
  split
  · rfl
  · dsimp only
    split <;> rfl

theorem result_step (p : Progress) (inv : Invocation) :
    (engine.step p inv).1.result =
      ⟨inv.name, engine.description inv.name, (engine.step p inv).1.outcome⟩ := by
  unfold Record.result
  rw [name_step, description_step]

/-- A step that is not skipped stops the run when it is found cancelled before or after it, and
under the policy to abort also when it does not pass. -/
theorem stops_step_iff {p : Progress} (hs : p.stopped = false) (inv : Invocation) :
    (engine.step p inv).2.stopped = true ↔
      (engine.arrival p).cancelled = true ∨ (engine.step p inv).2.env.cancelled = true ∨
        engine.policy = .abort ∧ (engine.step p inv).1.status ≠ .pass := by
  by_cases hc : (engine.arrival p).cancelled = true
  · rw [engine.step_of_cancelled hs hc]
    exact iff_of_true rfl (.inl hc)
  · have hf := (Bool.not_eq_true _).mp hc
    rw [engine.step_of_going hs hf]
    simp only [settle, Bool.or_eq_true, Bool.and_eq_true, beq_iff_eq, hf, Bool.false_eq_true,
      false_or, Status.isPass, Bool.not_eq_true', beq_eq_false_iff_ne]
    rfl

/-- The record of a step tells whether the run stops there. -/
theorem stops_step {p : Progress} (hs : p.stopped = false) (inv : Invocation) :
    (engine.step p inv).1.stops = (engine.step p inv).2.stopped := by
  by_cases hc : (engine.arrival p).cancelled = true
  · rw [engine.step_of_cancelled hs hc]
  · rw [engine.step_of_going hs ((Bool.not_eq_true _).mp hc)]

theorem conduct_step_ne_skipped {p : Progress} (hs : p.stopped = false) (inv : Invocation) :
    (engine.step p inv).1.conduct ≠ .skipped := by
  by_cases hc : (engine.arrival p).cancelled = true
  · rw [engine.step_of_cancelled hs hc]
    exact fun h => nomatch h
  · rw [engine.step_of_going hs ((Bool.not_eq_true _).mp hc)]
    rcases engine.attempt_cases { p with env := engine.arrival p } inv with
      ⟨-, h⟩ | ⟨command, -, ⟨-, h⟩ | ⟨-, h⟩⟩ <;>
    · simp only [h]
      exact fun h => nomatch h

theorem taken_step (p : Progress) (inv : Invocation) :
    (engine.step p inv).2.taken = p.taken + 1 := by
  unfold step
  split
  · rfl
  · dsimp only
    split <;> rfl

/-! ## Rows of steps -/

theorem steps_cons (p : Progress) (inv : Invocation) (invs : List Invocation) :
    engine.steps p (inv :: invs) =
      ((engine.step p inv).1 :: (engine.steps (engine.step p inv).2 invs).1,
        (engine.steps (engine.step p inv).2 invs).2) := rfl

theorem steps_append (p : Progress) (xs ys : List Invocation) :
    engine.steps p (xs ++ ys) =
      ((engine.steps p xs).1 ++ (engine.steps (engine.steps p xs).2 ys).1,
        (engine.steps (engine.steps p xs).2 ys).2) := by
  induction xs generalizing p with
  | nil => rfl
  | cons inv xs ih => rw [List.cons_append, steps_cons, ih, steps_cons, List.cons_append]

@[simp] theorem length_steps (p : Progress) (invs : List Invocation) :
    (engine.steps p invs).1.length = invs.length := by
  induction invs generalizing p with
  | nil => rfl
  | cons inv invs ih => rw [steps_cons, List.length_cons, ih, List.length_cons]

theorem taken_steps (p : Progress) (invs : List Invocation) :
    (engine.steps p invs).2.taken = p.taken + invs.length := by
  induction invs generalizing p with
  | nil => rfl
  | cons inv invs ih =>
    rw [steps_cons, ih, taken_step, List.length_cons]
    omega

/-- After a stop every invocation is skipped, and nothing changes. -/
theorem steps_of_stopped {p : Progress} (h : p.stopped = true) (invs : List Invocation) :
    engine.steps p invs =
      (invs.map engine.skipped, { p with taken := p.taken + invs.length }) := by
  induction invs generalizing p with
  | nil => rfl
  | cons inv invs ih =>
    have hp : ({ p with taken := p.taken + 1 } : Progress).stopped = true := h
    rw [steps_cons, engine.step_of_stopped h, ih hp, List.map_cons, List.length_cons]
    simp only [Nat.add_assoc, Nat.add_comm 1]

/-- A body that was run is that of the command of the name, and its effect is what it did there. -/
theorem ran_of_mem_steps {p : Progress} {invs : List Invocation} {r : Record}
    (hr : r ∈ (engine.steps p invs).1) {command : Command} {found : Env} {effect : Effect}
    (hran : r.conduct = .ran command found effect) :
    engine.catalog.find? r.invocation.name = some command ∧ effect = command.body found := by
  induction invs generalizing p with
  | nil => simp [steps] at hr
  | cons inv invs ih =>
    rw [steps_cons] at hr
    rcases List.mem_cons.1 hr with rfl | hr
    · rcases engine.step_cases p inv with ⟨-, h⟩ | ⟨-, -, h⟩ | ⟨-, -, h⟩
      · simp [h, skipped] at hran
      · simp [h] at hran
      · rcases engine.attempt_cases { p with env := engine.arrival p } inv with
          ⟨-, hdid⟩ | ⟨other, hfind, ⟨-, hdid⟩ | ⟨-, hdid⟩⟩
        · simp [h, hdid] at hran
        · simp [h, hdid] at hran
        · simp only [h, hdid, Conduct.ran.injEq] at hran ⊢
          obtain ⟨rfl, rfl, rfl⟩ := hran
          exact ⟨hfind, rfl⟩
    · exact ih hr

theorem names_steps (p : Progress) (invs : List Invocation) :
    (engine.steps p invs).1.map Record.name = invs.map (·.name) := by
  induction invs generalizing p with
  | nil => rfl
  | cons inv invs ih => rw [steps_cons, List.map_cons, List.map_cons, ih, name_step]

theorem descriptions_steps (p : Progress) (invs : List Invocation) :
    (engine.steps p invs).1.map (·.description) =
      invs.map fun inv => engine.description inv.name := by
  induction invs generalizing p with
  | nil => rfl
  | cons inv invs ih => rw [steps_cons, List.map_cons, List.map_cons, ih, description_step]

/-! ## Where a run stands -/

variable (env : Env) (invs : List Invocation)

/-- Where a run stands when the first `i` invocations have been taken up. -/
def progress (i : Nat) : Progress := (engine.steps (.start env) (invs.take i)).2

theorem progress_length :
    engine.progress env invs invs.length = (engine.steps (.start env) invs).2 := by
  unfold progress
  rw [List.take_length]

theorem progress_succ {i : Nat} (h : i < invs.length) :
    engine.progress env invs (i + 1) = (engine.step (engine.progress env invs i) invs[i]).2 := by
  unfold progress
  rw [List.take_succ_eq_append_getElem h, steps_append]
  rfl

theorem taken_progress {i : Nat} (h : i ≤ invs.length) :
    (engine.progress env invs i).taken = i := by
  unfold progress
  rw [taken_steps, List.length_take, Nat.min_eq_left h]
  exact Nat.zero_add i

/-- From the first `i` invocations on, a run is the row of steps over the others. -/
theorem steps_eq_append (i : Nat) :
    engine.steps (.start env) invs =
      ((engine.steps (.start env) (invs.take i)).1 ++
          (engine.steps (engine.progress env invs i) (invs.drop i)).1,
        (engine.steps (engine.progress env invs i) (invs.drop i)).2) := by
  rw [← List.take_append_drop i invs, steps_append, List.take_append_drop]
  rfl

theorem progress_of_stopped {i j : Nat} (hs : (engine.progress env invs i).stopped = true)
    (h : i ≤ j) :
    (engine.progress env invs j).stopped = true ∧
      (engine.progress env invs j).env = (engine.progress env invs i).env := by
  have hj : engine.progress env invs j =
      (engine.steps (engine.progress env invs i) ((invs.take j).drop i)).2 := by
    have := engine.steps_eq_append env (invs.take j) i
    rw [List.take_take, Nat.min_eq_left h] at this
    unfold progress
    rw [this]
    unfold progress
    rw [List.take_take, Nat.min_eq_left h]
  rw [hj, engine.steps_of_stopped hs]
  exact ⟨hs, rfl⟩

theorem execute_records : (engine.execute env invs).records = (engine.steps (.start env) invs).1 :=
  rfl

theorem store_execute :
    (engine.execute env invs).env.store = (engine.steps (.start env) invs).2.env.store :=
  Env.store_elapse _ _

theorem names_execute : (engine.execute env invs).results.map (·.name) = invs.map (·.name) := by
  show ((engine.execute env invs).records.map Record.result).map (·.name) = _
  rw [List.map_map]
  exact engine.names_steps _ invs

theorem descriptions_execute :
    (engine.execute env invs).results.map (·.description) =
      invs.map (fun inv => engine.description inv.name) := by
  show ((engine.execute env invs).records.map Record.result).map (·.description) = _
  rw [List.map_map]
  exact engine.descriptions_steps _ invs

theorem execute_aborted :
    (engine.execute env invs).aborted = (engine.progress env invs invs.length).stopped := by
  rw [progress_length]
  rfl

theorem execute_env :
    (engine.execute env invs).env =
      (engine.progress env invs invs.length).env.elapse (engine.pace.arriving invs.length) := by
  have htaken := engine.taken_progress env invs (Nat.le_refl invs.length)
  rw [progress_length] at htaken ⊢
  rw [← htaken]
  rfl

/-- The record of an invocation is the one of the step from where the run stands before it. -/
theorem getElem?_records (i : Nat) :
    (engine.execute env invs).records[i]? =
      invs[i]?.map fun inv => (engine.step (engine.progress env invs i) inv).1 := by
  rw [execute_records, engine.steps_eq_append env invs i]
  by_cases h : i < invs.length
  · have hl : (engine.steps (.start env) (invs.take i)).1.length = i := by
      rw [length_steps, List.length_take, Nat.min_eq_left (Nat.le_of_lt h)]
    rw [List.getElem?_append_right (Nat.le_of_eq hl), hl, Nat.sub_self,
      List.drop_eq_getElem_cons h, steps_cons, List.getElem?_eq_getElem h]
    rfl
  · have hn : invs[i]? = none := List.getElem?_eq_none (Nat.le_of_not_lt h)
    rw [hn, Option.map_none, List.getElem?_eq_none_iff]
    simp only [List.length_append, length_steps, List.length_take, List.length_drop]
    omega

end Engine

end Runbook
