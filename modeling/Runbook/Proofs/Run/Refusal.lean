import Runbook.Command.Probe
import Runbook.Proofs.Run.Continuation
import Runbook.Proofs.Run.Shape

/-!
# Refused invocations

An invocation is refused if there is no command of its name, or if the command wants more arguments.
A refusal is noted in the record of the step; it binds nothing, takes nothing away and runs no body
(`attempt_of_refuses`). Under the policy to go on, a run therefore goes on behind it from progress
alike to that before it (`alike_step_of_refuses`), and the run without the invocation leaves the
same, except for that record (`refused_is_transparent`).
-/

namespace Runbook

namespace Catalog

/-- There is no command of the name, or it wants more arguments. -/
def Refuses (c : Catalog) (inv : Invocation) : Prop :=
  c.find? inv.name = none ∨
    ∃ command ∈ c.find? inv.name, inv.arguments.length < command.minArguments

instance (c : Catalog) (inv : Invocation) : Decidable (c.Refuses inv) :=
  inferInstanceAs (Decidable (_ = none ∨
    ∃ command ∈ c.find? inv.name, inv.arguments.length < command.minArguments))

/-- What happens to an invocation that is refused. -/
def refusal (c : Catalog) (inv : Invocation) : Conduct :=
  match c.find? inv.name with
  | none => .unknown
  | some command => .short command

theorem status_refusal (c : Catalog) (inv : Invocation) :
    ((c.refusal inv).outcome inv).status = .error := by
  unfold refusal
  split <;> rfl

theorem name_refusal (c : Catalog) (inv : Invocation) : (c.refusal inv).name inv = inv.name := by
  unfold refusal
  split
  · rfl
  · exact name_of_find? ‹_›

theorem output_refusal (c : Catalog) (inv : Invocation) : (c.refusal inv).output = [] := by
  unfold refusal
  split <;> rfl

end Catalog

namespace Engine

variable {engine : Engine} {b : Invocation}

/-! ## Steps that refuse -/

theorem attempt_of_refuses (hb : engine.catalog.Refuses b) (p : Progress) :
    engine.attempt p b = (engine.catalog.refusal b, p.env, p.bound) := by
  unfold Catalog.refusal
  rcases hb with hnone | ⟨command, hfind, hshort⟩
  · unfold attempt
    rw [hnone]
  · unfold attempt
    rw [Option.mem_def.1 hfind]
    exact if_pos hshort

/-- The record of a refused invocation in a run that goes on. -/
def refused (engine : Engine) (b : Invocation) : Record :=
  ⟨b, engine.description b.name, engine.catalog.refusal b, false⟩

theorem result_refused (b : Invocation) :
    (engine.refused b).result =
      ⟨b.name, engine.description b.name, (engine.catalog.refusal b).outcome b⟩ := by
  unfold Record.result Record.name refused
  rw [Catalog.name_refusal]
  rfl

theorem reports_refused (b : Invocation) : (engine.refused b).reports = [] := by
  unfold Record.reports refused
  rw [Catalog.output_refusal]
  rfl

/-- A refused invocation leaves its record and progress alike. -/
theorem alike_step_of_refuses (hpace : engine.pace = .instant) (hpolicy : engine.policy = .proceed)
    (hb : engine.catalog.Refuses b) {p : Progress} (hgoing : p.stopped = false)
    (hlive : (engine.arrival p).cancelled = false) :
    (engine.step p b).1 = engine.refused b ∧ (engine.step p b).2.Alike p := by
  let found : Progress := { p with env := engine.arrival p }
  have hdid : engine.attempt found b = (engine.catalog.refusal b, engine.arrival p, p.bound) :=
    attempt_of_refuses hb found
  have hquiet : (engine.arrival p).elapse 0 = engine.arrival p := by
    rw [arrival_eq hpace, Env.elapse_zero_elapse_zero]
  have hgoes : (engine.settle p b (engine.attempt found b)).stopped = false := by
    rw [stopped_settle hpace, hdid, hquiet, hlive, hpolicy]
    rfl
  rw [engine.step_of_going hgoing hlive]
  refine ⟨?_, ?_, ?_, hgoes.trans hgoing.symm⟩
  · show Record.mk b _ (engine.attempt found b).1 _ = _
    rw [hgoes, hdid]
    rfl
  · rw [env_settle hpace]
    show ((engine.attempt found b).2.1.elapse 0).elapse 0 = _
    rw [hdid, hquiet, hquiet, arrival_eq hpace]
  · show (engine.attempt found b).2.2 = p.bound
    rw [hdid]

/-! ## Only a cancellation stops a run that goes on -/

theorem cancelled_of_stopped_step (hpolicy : engine.policy = .proceed) {p : Progress}
    (h : p.stopped = true → p.env.cancelled = true) (inv : Invocation)
    (hstopped : (engine.step p inv).2.stopped = true) :
    (engine.step p inv).2.env.cancelled = true := by
  rcases engine.step_cases p inv with ⟨hs, hstep⟩ | ⟨-, hc, hstep⟩ | ⟨hs, hc, hstep⟩
  · rw [hstep]
    exact h hs
  · rw [hstep]
    exact hc
  · rcases (engine.stops_step_iff hs inv).1 hstopped with hbefore | hafter | ⟨habort, -⟩
    · exact absurd hbefore (by simp [hc])
    · exact hafter
    · exact absurd habort (by simp [hpolicy])

theorem cancelled_of_stopped_steps (hpolicy : engine.policy = .proceed) {p : Progress}
    (h : p.stopped = true → p.env.cancelled = true) (invs : List Invocation)
    (hstopped : (engine.steps p invs).2.stopped = true) :
    (engine.steps p invs).2.env.cancelled = true := by
  induction invs generalizing p with
  | nil => exact h hstopped
  | cons inv invs ih => exact ih (cancelled_of_stopped_step hpolicy h inv) hstopped

/-- A run that goes on and is not cancelled in the end has not stopped. -/
theorem going_of_live (hpolicy : engine.policy = .proceed) {env : Env} {xs : List Invocation}
    (hlive : (engine.execute env xs).env.cancelled = false) :
    (engine.steps (.start env) xs).2.stopped = false := by
  rw [Bool.eq_false_iff]
  intro hstopped
  have hstart : (Progress.start env).stopped = true → (Progress.start env).env.cancelled = true :=
    nofun
  have hcancelled := cancelled_of_stopped_steps hpolicy hstart xs hstopped
  have hstruck : (engine.execute env xs).env.cancelled = true := Env.cancelled_elapse hcancelled _
  exact absurd (hlive.symm.trans hstruck) Bool.false_ne_true

/-! ## Runs with and without a refused invocation -/

theorem insertIdx_append {α : Type} (front back : List α) (x : α) :
    (front ++ back).insertIdx front.length x = front ++ x :: back := by
  induction front with
  | nil => rfl
  | cons y front ih => rw [List.cons_append, List.length_cons, List.insertIdx_succ_cons, ih]; rfl

/-- The run with the invocation has one record more, and is else the run without it. -/
theorem execute_refused (hpace : engine.pace = .instant) (hpolicy : engine.policy = .proceed)
    (hb : engine.catalog.Refuses b) {env : Env} {xs : List Invocation}
    (hlive : (engine.execute env xs).env.cancelled = false) (ys : List Invocation) :
    let without := engine.execute env (xs ++ ys)
    ∃ front back : List Record, front.length = xs.length ∧ without.records = front ++ back ∧
      engine.execute env (xs ++ [b] ++ ys) =
        { without with records := front ++ engine.refused b :: back } := by
  intro without
  let p := (engine.steps (.start env) xs).2
  obtain ⟨hrecord, hstep⟩ :=
    alike_step_of_refuses hpace hpolicy hb (going_of_live hpolicy hlive) hlive
  obtain ⟨hrecords, hlast⟩ := alike_steps hpace hstep ys
  have hwithout : without = _ := execute_eq hpace env (xs ++ ys)
  rw [steps_append] at hwithout
  refine ⟨(engine.steps (.start env) xs).1, (engine.steps p ys).1, engine.length_steps _ _,
    congrArg Run.records hwithout, ?_⟩
  rw [hwithout, execute_eq hpace, List.append_assoc, List.singleton_append, steps_append,
    steps_cons]
  dsimp only
  rw [hrecord, hrecords, hlast.stopped, hlast.env]

/-- Under the policy to go on, an invocation that is refused leaves no trace but its own result, an
error: what is done with all others, what they find bound, what the run puts out and what it leaves
are the same without it. The run must not have been cancelled before it comes to that invocation;
and if a time limit is pending, nothing but waiting takes time, the refused step included. -/
theorem refused_is_transparent {env : Env} {xs : List Invocation}
    (hpolicy : engine.policy = .proceed)
    (hpace : engine.pace = .instant ∨ env.remaining = none) (hb : engine.catalog.Refuses b)
    (hlive : (engine.execute env xs).env.cancelled = false) (ys : List Invocation) :
    let whole := engine.execute env (xs ++ [b] ++ ys)
    let without := engine.execute env (xs ++ ys)
    let error : Result :=
      ⟨b.name, engine.description b.name, (engine.catalog.refusal b).outcome b⟩
    error.outcome.status = .error ∧
      whole.results = without.results.insertIdx xs.length error ∧
      whole.records = without.records.insertIdx xs.length (engine.refused b) ∧
      whole.reports = without.reports ∧ whole.state = without.state ∧ whole.env = without.env := by
  intro whole without error
  obtain ⟨front, back, hlength, hwithout, hwhole⟩ : ∃ front back : List Record,
      front.length = xs.length ∧ without.records = front ++ back ∧
        whole = { without with records := front ++ engine.refused b :: back } := by
    rcases hpace with hpace | hlimit
    · exact execute_refused hpace hpolicy hb hlive ys
    · have hsame := engine.execute_instant hlimit
      rw [← hsame] at hlive
      have hrun := @execute_refused engine.instant b rfl hpolicy hb _ _ hlive ys
      simp only [hsame] at hrun
      exact hrun
  refine ⟨engine.catalog.status_refusal b, ?_, ?_, ?_, ?_, ?_⟩
  · have herror : (engine.refused b).result = error := result_refused b
    unfold Run.results
    rw [hwhole, hwithout, List.map_append, List.map_append, List.map_cons, herror, ← hlength,
      ← List.length_map Record.result, insertIdx_append]
  · rw [hwhole, hwithout, ← hlength, insertIdx_append]
  · unfold Run.reports
    rw [hwhole, hwithout, List.flatMap_append, List.flatMap_append, List.flatMap_cons,
      reports_refused, List.nil_append]
  · rw [hwhole]
    rfl
  · rw [hwhole]

/-- A step in the middle has too few arguments; the one behind it refers to an argument bound before
it, and finds that argument. -/
theorem refused_is_transparent_between :
    let engine : Engine :=
      { catalog := ⟨[Probe.count.command "Count" "" 1], by decide⟩
        policy := .proceed }
    let env : Env := ⟨"default", ∅, false, none⟩
    let xs : List Invocation := [⟨"Count", [⟨[.literal "a"]⟩, ⟨[.literal "b"]⟩], 1, 0⟩]
    let b : Invocation := ⟨"Count", [], 2, 10⟩
    let ys : List Invocation := [⟨"Count", [⟨[.variable "Argument1"]⟩], 3, 16⟩]
    let whole := engine.execute env (xs ++ [b] ++ ys)
    engine.catalog.Refuses b ∧ (engine.execute env xs).env.cancelled = false ∧
      whole.results = (engine.execute env (xs ++ ys)).results.insertIdx 1
        ⟨"Count", "", .error "expects at least 1 argument(s), got 0"⟩ ∧
      whole.results.map (·.outcome.message) =
        [some "2:a|b", some "expects at least 1 argument(s), got 0", some "1:b"] := by
  intro engine env xs b ys whole
  have hb : engine.catalog.Refuses b := by decide
  have hlive : (engine.execute env xs).env.cancelled = false := by decide
  have herror : (engine.catalog.refusal b).outcome b =
      .error "expects at least 1 argument(s), got 0" := by decide
  obtain ⟨-, hresults, -⟩ := refused_is_transparent rfl (.inl rfl) hb hlive ys
  rw [herror] at hresults
  exact ⟨hb, hlive, hresults, by decide⟩

end Engine

end Runbook
