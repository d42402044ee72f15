import Mathlib
import Runbook.Proofs.Run.Deadline

/-!
# Runs that end in time

Where nothing but waiting takes time, a run whose waits come to less than its time limit is the run
without the limit: the same results and outputs, the same variables, and of the limit there is left
what the waits leave of it (`execute_within`). All that is asked of the commands is that a limit
which is longer than their waits changes nothing in their bodies (`Command.Timely`); the standard
commands are such (`timely_standard`).
-/

namespace Runbook

/-! ## Time spent -/

/-- The nanoseconds that an output takes. -/
def Output.nanoseconds : Output → Nat
  | .wait n => n
  | _ => 0

/-- The text that an output reports. -/
def Output.text? : Output → Option String
  | .report text => some text
  | _ => none

/-- The time that a body has waited, in nanoseconds. -/
def Effect.waited (effect : Effect) : Nat := (effect.output.map Output.nanoseconds).sum

theorem foldl_add_eq_sum {α : Type} (f : α → Nat) (start : Nat) (l : List α) :
    l.foldl (fun total a => total + f a) start = start + (l.map f).sum := by
  induction l generalizing start with
  | nil => rfl
  | cons a l ih => rw [List.foldl_cons, ih, List.map_cons, List.sum_cons, Nat.add_assoc]

theorem Record.waited_eq (r : Record) :
    r.waited = (r.conduct.output.map Output.nanoseconds).sum := by
  have hsum := foldl_add_eq_sum Output.nanoseconds 0 r.conduct.output
  rw [Nat.zero_add] at hsum
  rw [← hsum]
  unfold waited
  congr 1
  funext total output
  cases output <;> rfl

theorem Run.waited_eq (run : Run) : run.waited = (run.records.map Record.waited).sum := by
  unfold waited
  rw [foldl_add_eq_sum, Nat.zero_add]

/-- What a record tells of its invocation, apart from what was found before. -/
def Record.account (r : Record) : Result × List Output := (r.result, r.conduct.output)

namespace Run

variable {run other : Run}
  (h : run.records.map Record.account = other.records.map Record.account)

include h

theorem results_of_accounts : run.results = other.results := by
  have hresults := congrArg (List.map Prod.fst) h
  rwa [List.map_map, List.map_map] at hresults

theorem reports_of_accounts : run.reports = other.reports := by
  have hreports := congrArg
    (List.flatMap fun a : Result × List Output => a.2.filterMap Output.text?) h
  rwa [List.flatMap_map, List.flatMap_map] at hreports

theorem waited_of_accounts : run.waited = other.waited := by
  have hwaited := congrArg (List.map fun a : Result × List Output =>
    (a.2.map Output.nanoseconds).sum) h
  rw [List.map_map, List.map_map] at hwaited
  have heq : ((fun a : Result × List Output => (a.2.map Output.nanoseconds).sum) ∘
      Record.account) = Record.waited := funext fun r => r.waited_eq.symm
  rw [heq] at hwaited
  rw [run.waited_eq, other.waited_eq, hwaited]

end Run

/-! ## Commands -/

/-- A limit that is longer than the waits of the body only gets shorter by them. -/
def Command.Timely (command : Command) : Prop :=
  ∀ (env : Env) (left : Nat), env.Free → (command.body env).waited < left →
    command.body (env.within left) =
      { command.body env with remaining := some (left - (command.body env).waited) }

/-- All commands of the catalog are timely. -/
def Catalog.Timely (catalog : Catalog) : Prop := ∀ command ∈ catalog.commands, command.Timely

namespace Command

theorem timely_of_timeless {command : Command} (h : command.Timeless)
    (hwaited : ∀ env, (command.body env).waited = 0) : command.Timely := by
  intro env left hfree hleft
  have hwithin : command.body (env.within left) =
      { command.body env with cancelled := env.cancelled, remaining := some left } :=
    h env env.cancelled (some left)
  have hlive : (command.body env).cancelled = env.cancelled :=
    congrArg Effect.cancelled (h env env.cancelled env.remaining)
  rw [hwithin, hwaited, Nat.sub_zero, ← hlive]

theorem waited_set (env : Env) : (set.body env).waited = 0 := by
  by_cases hempty : env.argument 0 "" = ""
  · rw [body_set_of_empty hempty]
    rfl
  · rw [body_set_of_ne hempty]
    rfl

theorem timely_sleep : sleep.Timely := by
  intro env left hfree hleft
  rcases body_sleep env.store with ⟨outcome, -, hbody⟩ | ⟨n, hbody⟩
  · rw [hbody env rfl, hbody (env.within left) rfl]
    rfl
  · have hwait := Env.wait_of_free hfree n
    have hwaited : (env.wait n).waited = n := by
      rw [hwait]
      exact Nat.add_zero n
    rw [hbody env rfl, hwaited] at hleft ⊢
    have hlive : ¬ (env.within left).cancelled = true := by simp [Env.within, hfree.live]
    have hafter : (if n = 0 then env.within left else (env.within left).elapse n) =
        env.within (left - n) := by
      split
      · rename_i hzero
        rw [hzero, Nat.sub_zero]
      · exact if_neg (Nat.not_le.2 hleft)
    rw [hbody (env.within left) rfl, hwait]
    unfold Env.wait
    rw [if_neg hlive, hafter]
    simp only [Env.within, hfree.live, Env.ending, Env.finish, Option.getD_some,
      Nat.min_eq_left (Nat.le_of_lt hleft)]
    rfl

end Command

theorem timely_standard : Catalog.standard.Timely := by
  intro command hcommand
  have hcases : command ∈ Command.standard := hcommand
  simp only [Command.standard, List.mem_cons, List.not_mem_nil, or_false] at hcases
  rcases hcases with rfl | rfl | rfl | rfl | rfl | rfl | rfl | rfl
  · exact Command.timely_of_timeless (fun _ _ _ => rfl) fun _ => rfl
  · exact Command.timely_of_timeless Command.timeless_set Command.waited_set
  · exact Command.timely_of_timeless (fun _ _ _ => rfl) fun _ => rfl
  · exact Command.timely_of_timeless (fun _ _ _ => rfl) fun _ => rfl
  · exact Command.timely_of_timeless (fun _ _ _ => rfl) fun _ => rfl
  · exact Command.timely_of_timeless (fun _ _ _ => rfl) fun _ => rfl
  · exact Command.timely_of_timeless (fun _ _ _ => rfl) fun _ => rfl
  · exact Command.timely_sleep

/-! ## Steps -/

theorem Env.elapse_zero_within (env : Env) {left : Nat} (h : 0 < left) :
    (env.within left).elapse 0 = env.within left :=
  if_neg (Nat.not_le.2 h)

namespace Engine

variable {engine : Engine} {p : Progress} {left : Nat}

theorem arrival_within (hpace : engine.pace = .instant) (hleft : 0 < left) :
    engine.arrival (p.within left) = p.env.within left := by
  unfold arrival
  rw [hpace]
  exact p.env.elapse_zero_within hleft

theorem entry_within (hpace : engine.pace = .instant) (hfree : p.env.Free) (hleft : 0 < left)
    (inv : Invocation) : engine.entry (p.within left) inv = (engine.entry p inv).within left := by
  rw [entry_of_free hfree]
  unfold entry
  rw [hpace]
  exact Env.elapse_zero_within { p.env with store := p.env.store.bind p.bound inv } hleft

/-- An attempt with a limit that is longer than its waits. -/
theorem attempt_within (hcatalog : engine.catalog.Timely) (hpace : engine.pace = .instant)
    (hfree : p.env.Free) (inv : Invocation)
    (hleft : ((engine.attempt p inv).1.output.map Output.nanoseconds).sum < left) :
    let did := engine.attempt p inv
    let timely := engine.attempt (p.within left) inv
    timely.1.outcome inv = did.1.outcome inv ∧ timely.1.output = did.1.output ∧
      timely.2 =
        (did.2.1.within (left - (did.1.output.map Output.nanoseconds).sum), did.2.2) := by
  intro did timely
  rcases engine.attempt_cases p inv with ⟨hfind, -⟩ | ⟨command, hfind, ⟨hn, -⟩ | ⟨hn, hdid⟩⟩
  · simp only [did, timely, attempt, hfind]
    exact ⟨trivial, trivial, rfl⟩
  · simp only [did, timely, attempt, hfind, hn, if_true]
    exact ⟨trivial, trivial, rfl⟩
  · rw [hdid] at hleft
    have hcommand := hcatalog command (List.mem_of_find?_eq_some hfind)
    have hbody := hcommand (engine.entry p inv) left (free_entry hfree inv) hleft
    have hentry := entry_within hpace hfree (Nat.zero_lt_of_lt hleft) inv
    simp only [did, timely, engine.attempt_of_find? hfind hn, hentry, hbody]
    exact ⟨rfl, rfl, rfl⟩

theorem settle_within (hpace : engine.pace = .instant) (p : Progress) (before : Nat)
    {inv : Invocation} {did timely : Conduct × Env × Nat} (hfree : did.2.1.Free) (hleft : 0 < left)
    (houtcome : timely.1.outcome inv = did.1.outcome inv)
    (hafter : timely.2 = (did.2.1.within left, did.2.2)) :
    engine.settle (p.within before) inv timely = (engine.settle p inv did).within left := by
  have helapse : ∀ i, timely.2.1.elapse (engine.pace.leaving i) = did.2.1.within left := by
    intro i
    rw [hpace, hafter]
    exact did.2.1.elapse_zero_within hleft
  have hbound : timely.2.2 = did.2.2 := (congrArg Prod.snd hafter :)
  have hunlimited := Env.elapse_of_unlimited hfree.unlimited (engine.pace.leaving p.taken)
  unfold settle
  dsimp only
  rw [helapse, houtcome, hbound, hunlimited]
  rfl

/-- A step with a limit that is longer than its waits. -/
theorem step_within (hcatalog : engine.catalog.Timely) (hpunctual : engine.catalog.Punctual)
    (hpace : engine.pace = .instant) (hfree : p.env.Free) (inv : Invocation)
    (hleft : (engine.step p inv).1.waited < left) :
    let done := engine.step p inv
    let timely := engine.step (p.within left) inv
    timely.1.account = done.1.account ∧ timely.2 = done.2.within (left - done.1.waited) := by
  intro done timely
  rw [Record.waited_eq] at hleft ⊢
  by_cases hs : p.stopped = true
  · have hs' : (p.within left).stopped = true := hs
    simp only [done, timely, engine.step_of_stopped hs, engine.step_of_stopped hs']
    exact ⟨trivial, rfl⟩
  rw [Bool.not_eq_true] at hs
  have hs' : (p.within left).stopped = false := hs
  have hlive : (engine.arrival p).cancelled = false := by rw [arrival_of_free hfree, hfree.live]
  have harrival := arrival_within (p := p) hpace (Nat.zero_lt_of_lt hleft)
  have hlive' : (engine.arrival (p.within left)).cancelled = false := by
    rw [harrival]
    exact hfree.live
  have hdone : done = _ := engine.step_of_going hs hlive inv
  have htimely : timely = _ := engine.step_of_going hs' hlive' inv
  rw [arrival_of_free hfree] at hdone
  rw [harrival] at htimely
  have hdid : done.1.conduct = (engine.attempt p inv).1 := by rw [hdone]
  rw [show (engine.step p inv).1.conduct = _ from hdid] at hleft
  obtain ⟨houtcome, houtput, hafter⟩ := attempt_within hcatalog hpace hfree inv hleft
  have hsettle := settle_within hpace p left (free_attempt hpunctual hfree inv).1
    (Nat.sub_pos_of_lt hleft) houtcome hafter
  constructor
  · have hresult : timely.1.result = done.1.result := by
      rw [engine.result_step, engine.result_step]
      refine congrArg (Result.mk inv.name (engine.description inv.name)) ?_
      show timely.1.outcome = done.1.outcome
      rw [htimely, hdone]
      exact houtcome
    have hconduct : timely.1.conduct.output = done.1.conduct.output := by
      rw [htimely, hdone]
      exact houtput
    exact Prod.ext hresult hconduct
  · rw [hdid, htimely, hdone]
    exact hsettle

/-! ## Runs -/

/-- A row of steps with a limit that is longer than their waits. -/
theorem steps_within (hcatalog : engine.catalog.Timely) (hpunctual : engine.catalog.Punctual)
    (hpace : engine.pace = .instant) (hfree : p.env.Free) (invs : List Invocation)
    (hleft : ((engine.steps p invs).1.map Record.waited).sum < left) :
    let done := engine.steps p invs
    let timely := engine.steps (p.within left) invs
    timely.1.map Record.account = done.1.map Record.account ∧
      timely.2 = done.2.within (left - (done.1.map Record.waited).sum) := by
  -- What the first step leaves of the limit is still longer than the waits of the others.
  induction invs generalizing p left with
  | nil => exact ⟨rfl, rfl⟩
  | cons inv invs ih =>
    intro done timely
    rw [steps_cons, List.map_cons, List.sum_cons] at hleft
    obtain ⟨haccount, hafter⟩ := step_within hcatalog hpunctual hpace hfree inv
      (Nat.lt_of_le_of_lt (Nat.le_add_right _ _) hleft)
    have hrest : ((engine.steps (engine.step p inv).2 invs).1.map Record.waited).sum <
        left - (engine.step p inv).1.waited := by omega
    obtain ⟨haccounts, hlast⟩ := ih (free_step hpunctual hfree inv) hrest
    simp only [done, timely, steps_cons, List.map_cons, List.sum_cons]
    rw [hafter, haccount, haccounts, hlast, Nat.sub_sub]
    exact ⟨rfl, rfl⟩

/-- A run whose waits come to less than its limit is the run without the limit. -/
theorem execute_within {env : Env} (hcatalog : engine.catalog.Timely)
    (hpunctual : engine.catalog.Punctual) (hpace : engine.pace = .instant) (hfree : env.Free)
    (invs : List Invocation) (hleft : (engine.execute env invs).waited < left) :
    let run := engine.execute (env.within left) invs
    let free := engine.execute env invs
    run.results = free.results ∧ run.reports = free.reports ∧ run.waited = free.waited ∧
      run.aborted = free.aborted ∧ run.env = free.env.within (left - free.waited) := by
  intro run free
  have hstart : (Progress.start env).env.Free := hfree
  have hwaited : free.waited = _ := free.waited_eq
  rw [hwaited] at hleft
  obtain ⟨haccounts, hlast⟩ := steps_within hcatalog hpunctual hpace hstart invs hleft
  have hrecords : run.records.map Record.account = free.records.map Record.account := haccounts
  refine ⟨Run.results_of_accounts hrecords, Run.reports_of_accounts hrecords,
    Run.waited_of_accounts hrecords, (congrArg Progress.stopped hlast :), ?_⟩
  have hend := free_steps hpunctual hstart invs
  have hfreed : free.env = (engine.steps (.start env) invs).2.env :=
    Env.elapse_of_unlimited hend.unlimited _
  have htimely : run.env = (engine.steps (.start (env.within left)) invs).2.env.elapse 0 := by
    show Env.elapse _ (engine.pace.arriving _) = _
    rw [hpace]
    rfl
  have henv : (engine.steps (.start (env.within left)) invs).2.env =
      (engine.steps (.start env) invs).2.env.within (left - free.waited) := by
    rw [hwaited]
    exact congrArg Progress.env hlast
  rw [htimely, henv, hfreed]
  exact Env.elapse_zero_within _ (by omega)

end Engine

end Runbook
