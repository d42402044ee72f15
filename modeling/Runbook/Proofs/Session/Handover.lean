import Runbook.Command.Probe
import Runbook.Proofs.Run.Arguments
import Runbook.Session

/-!
# Every command finds its own arguments

No argument is handed on from one step to the next, nor from one run to the next: when the body of a
command starts, the store holds exactly the arguments of its invocation (`arguments_of_own_step`).
This needs that nobody else touches the reserved variables: the bodies keep them
(`Run.KeepsReserved`), and so does whoever changes the store between two runs (`Reached.changed`,
`Request.SparesReserved`).

The invariant is `Progress.Tidy`: the number of bound arguments is the one in the store, and the
arguments in the store are as many. A step keeps it whether it is refused, fails or crashes
(`tidy_step`), so a run does (`tidy_steps`), and the next run finds it in the store
(`Reached.accounted`).
-/

namespace Runbook

/-! ## Reserved variables are left alone -/

/-- The body, if one was run, leaves every reserved variable as it found it. -/
def Conduct.KeepsReserved : Conduct → Prop
  | .ran _ found effect => ∀ name, Reserved name → effect.store.get? name = found.store.get? name
  | _ => True

/-- Every body of the run leaves the reserved variables as it found them. -/
def Run.KeepsReserved (run : Run) : Prop := ∀ r ∈ run.records, r.conduct.KeepsReserved

/-- Every body leaves the reserved variables as it found them; a text that is no script runs none.
-/
def Execution.KeepsReserved (e : Execution) : Prop := ∀ run, e.outcome = .ok run → run.KeepsReserved

theorem Conduct.KeepsReserved.keepsCount {conduct : Conduct} (h : conduct.KeepsReserved) :
    conduct.KeepsCount := by
  cases conduct with
  | ran command found effect =>
    unfold Conduct.KeepsCount Env.argumentCount Store.read
    show (((effect.store.get? argumentCountName).bind _).getD 0) = _
    rw [h _ reserved_argumentCountName]
  | skipped | cancelled | unknown | short command => trivial

/-! ## Steps -/

/-- The surroundings hand over the arguments of an invocation and no others. -/
structure Env.HandsOver (env : Env) (inv : Invocation) : Prop where
  arguments : ∀ i, env.store.contains (argumentName i) = true ↔ i < inv.arguments.length
  count : env.argumentCount = inv.arguments.length
  default : ∀ i, inv.arguments.length ≤ i → ∀ default, env.argument i default = default
  length : env.arguments.length = inv.arguments.length

/-- The body, if one was run, was handed the arguments of its invocation and no others. -/
def Record.HandsOver (r : Record) : Prop :=
  match r.conduct with
  | .ran _ found _ => found.HandsOver r.invocation
  | _ => True

theorem Env.handsOver_of_bind {env : Env} {s : Store} {bound : Nat} {inv : Invocation}
    (h : s.HoldsArguments bound) (hstore : env.store = s.bind bound inv) : env.HandsOver inv := by
  have hholds := Store.holdsArguments_bind h inv
  rw [← hstore] at hholds
  have hcount : env.argumentCount = inv.arguments.length := argumentCount_bound hstore
  refine ⟨hholds, hcount, fun i hi => argument_eq_default (hholds.get?_eq_none hi), ?_⟩
  simp [Env.arguments, hcount]

/-- The arguments in the store are those that the last step bound, and their number is kept. -/
structure Progress.Tidy (p : Progress) : Prop where
  counted : p.Counted
  holds : p.env.store.HoldsArguments p.bound

theorem Progress.tidy_start {env : Env} (h : env.store.Accounted) : (Progress.start env).Tidy :=
  ⟨rfl, h⟩

namespace Engine

variable {engine : Engine}

theorem store_arrival (p : Progress) : (engine.arrival p).store = p.env.store :=
  p.env.store_elapse _

theorem store_entry (p : Progress) (inv : Invocation) :
    (engine.entry p inv).store = p.env.store.bind p.bound inv :=
  Env.store_elapse _ _

theorem holds_attempt {p : Progress} (h : p.env.store.HoldsArguments p.bound) {inv : Invocation}
    (hkeeps : (engine.attempt p inv).1.KeepsReserved) :
    (engine.attempt p inv).2.1.store.HoldsArguments (engine.attempt p inv).2.2 := by
  rcases engine.attempt_cases p inv with ⟨-, hdid⟩ | ⟨command, -, ⟨-, hdid⟩ | ⟨-, hdid⟩⟩
  · rw [hdid]
    exact h
  · rw [hdid]
    exact h
  · rw [hdid] at hkeeps ⊢
    refine (Store.holdsArguments_bind h inv).congr fun i => ?_
    rw [← store_entry]
    exact hkeeps _ (reserved_argumentName i)

theorem tidy_step {p : Progress} (h : p.Tidy) {inv : Invocation}
    (hkeeps : (engine.step p inv).1.conduct.KeepsReserved) : (engine.step p inv).2.Tidy := by
  refine ⟨counted_step h.counted hkeeps.keepsCount, ?_⟩
  rcases engine.step_cases p inv with ⟨-, hstep⟩ | ⟨-, -, hstep⟩ | ⟨-, -, hstep⟩
  · rw [hstep]
    exact h.holds
  · rw [hstep]
    dsimp only
    rw [store_arrival]
    exact h.holds
  · rw [hstep] at hkeeps ⊢
    have harrival : (engine.arrival p).store.HoldsArguments p.bound := by
      rw [store_arrival]
      exact h.holds
    unfold settle
    dsimp only
    rw [Env.store_elapse]
    exact holds_attempt (p := { p with env := engine.arrival p }) harrival hkeeps

theorem handsOver_step {p : Progress} (h : p.Tidy) (inv : Invocation) :
    (engine.step p inv).1.HandsOver := by
  rcases engine.step_cases p inv with ⟨-, hstep⟩ | ⟨-, -, hstep⟩ | ⟨-, -, hstep⟩
  · rw [hstep]
    trivial
  · rw [hstep]
    trivial
  · rw [hstep]
    unfold Record.HandsOver
    rcases engine.attempt_cases { p with env := engine.arrival p } inv with
      ⟨-, hdid⟩ | ⟨command, -, ⟨-, hdid⟩ | ⟨-, hdid⟩⟩
    · simp only [hdid]
    · simp only [hdid]
    · simp only [hdid]
      refine Env.handsOver_of_bind h.holds ?_
      rw [store_entry]
      exact congrArg (Store.bind · p.bound inv) (store_arrival p)

/-- Along a run whose bodies keep the reserved variables, every body finds its own arguments, and
the store is left tidy. -/
theorem tidy_steps {p : Progress} (h : p.Tidy) {invs : List Invocation}
    (hkeeps : ∀ r ∈ (engine.steps p invs).1, r.conduct.KeepsReserved) :
    (engine.steps p invs).2.Tidy ∧ ∀ r ∈ (engine.steps p invs).1, r.HandsOver := by
  induction invs generalizing p with
  | nil => exact ⟨h, by simp [steps]⟩
  | cons inv invs ih =>
    rw [steps_cons] at hkeeps ⊢
    obtain ⟨hfirst, hothers⟩ := List.forall_mem_cons.1 hkeeps
    obtain ⟨hlast, hhands⟩ := ih (tidy_step h hfirst) hothers
    exact ⟨hlast, List.forall_mem_cons.2 ⟨handsOver_step h inv, hhands⟩⟩

variable {env : Env} {invs : List Invocation}

theorem handsOver_execute (h : env.store.Accounted)
    (hkeeps : (engine.execute env invs).KeepsReserved) :
    ∀ r ∈ (engine.execute env invs).records, r.HandsOver :=
  (tidy_steps (Progress.tidy_start h) hkeeps).2

theorem accounted_execute (h : env.store.Accounted)
    (hkeeps : (engine.execute env invs).KeepsReserved) :
    (engine.execute env invs).env.store.Accounted := by
  obtain ⟨hcounted, hholds⟩ := (tidy_steps (Progress.tidy_start h) hkeeps).1
  unfold Store.Accounted
  rw [store_execute]
  unfold Progress.Counted Env.argumentCount at hcounted
  rwa [← hcounted]

end Engine

/-! ## Runs one after the other -/

/-- The stores that come about from one without reserved variables by runs whose bodies keep the
reserved ones, of any engine in any surroundings, and by changes of other variables between them. -/
inductive Reached : Store → Prop where
  | fresh {s : Store} : (∀ name, Reserved name → s.get? name = none) → Reached s
  | changed {s t : Store} : Reached s → (∀ name, Reserved name → t.get? name = s.get? name) →
      Reached t
  | ran {engine : Engine} {env : Env} {invs : List Invocation} : Reached env.store →
      (engine.execute env invs).KeepsReserved → Reached (engine.execute env invs).env.store

theorem Reached.accounted {s : Store} (h : Reached s) : s.Accounted := by
  induction h with
  | fresh hnone => exact Store.accounted_of_fresh hnone
  | changed _ heq ih =>
    unfold Store.Accounted Store.read at ih ⊢
    rw [heq _ reserved_argumentCountName]
    exact ih.congr fun i => heq _ (reserved_argumentName i)
  | ran _ hkeeps ih => exact Engine.accounted_execute ih hkeeps

/-- What running a text leaves, and what a run in it was. -/
theorem Engine.run_cases (engine : Engine) (env : Env) (source : String) :
    (∃ error, (engine.run env source).outcome = .error error ∧ (engine.run env source).env = env) ∨
    ∃ invs, parse source = .ok invs ∧
      (engine.run env source).outcome = .ok (engine.execute env invs) ∧
      (engine.run env source).env = (engine.execute env invs).env := by
  unfold Engine.run
  cases parse source with
  | error error => exact .inl ⟨error, rfl, rfl⟩
  | ok invs => exact .inr ⟨invs, rfl, rfl, rfl⟩

/-- All bodies of the execution were handed the arguments of their invocations and no others. -/
def Execution.HandsOver (e : Execution) : Prop :=
  ∀ run, e.outcome = .ok run → ∀ r ∈ run.records, r.HandsOver

theorem Reached.run (env : Env) (h : Reached env.store) (engine : Engine) (source : String)
    (hkeeps : (engine.run env source).KeepsReserved) :
    Reached (engine.run env source).env.store ∧ (engine.run env source).HandsOver := by
  rcases engine.run_cases env source with ⟨error, houtcome, henv⟩ | ⟨invs, -, houtcome, henv⟩
  · rw [henv]
    refine ⟨h, fun run hrun => ?_⟩
    rw [houtcome] at hrun
    nomatch hrun
  · rw [henv]
    have hrun := hkeeps _ houtcome
    refine ⟨h.ran hrun, fun run heq => ?_⟩
    obtain rfl := Except.ok.inj (houtcome.symm.trans heq)
    exact Engine.handsOver_execute h.accounted hrun

/-! ## Sessions -/

/-- The request changes no reserved variable itself. -/
def Request.SparesReserved : Request → Prop
  | .set name _ | .unset name => ¬ Reserved name
  | .setAll pairs => ∀ p ∈ pairs, ¬ Reserved p.1
  | _ => True

namespace Desk

/-- Serves requests one after the other, each with a catalog; every run leaves its execution. -/
def serveAll (d : Desk) : List (Catalog × Request) → List Execution × Desk
  | [] => ([], d)
  | (catalog, request) :: turns =>
    let (execution?, next) := d.serve catalog request
    let (executions, last) := next.serveAll turns
    (execution?.toList ++ executions, last)

theorem reached_serve {d : Desk} (h : Reached d.session.store) {catalog : Catalog}
    {request : Request} (hspares : request.SparesReserved)
    (hkeeps : ∀ e ∈ (d.serve catalog request).1, e.KeepsReserved) :
    Reached (d.serve catalog request).2.session.store ∧
      ∀ e ∈ (d.serve catalog request).1, e.HandsOver := by
  cases request with
  | run policy source =>
    let engine : Engine := { catalog, policy }
    obtain ⟨hnext, hhands⟩ := Reached.run (d.session.env none) h engine source
      (hkeeps (d.session.run engine source).1 rfl)
    exact ⟨hnext, fun e he => by obtain rfl := Option.some.inj he; exact hhands⟩
  | runWithin policy nanoseconds source =>
    let engine : Engine := { catalog, policy }
    let renewed : Session := { d.session with token := d.session.token.renew }
    obtain ⟨hnext, hhands⟩ := Reached.run (renewed.env (some nanoseconds)) h engine source
      (hkeeps (d.session.runWithin engine nanoseconds source).1 rfl)
    refine ⟨?_, fun e he => by obtain rfl := Option.some.inj he; exact hhands⟩
    unfold serve Session.runWithin
    dsimp only
    split <;> exact hnext
  | cancel | reset | renew | hold => exact ⟨h, by simp [serve]⟩
  | cancelHeld =>
    refine ⟨?_, by simp [serve]⟩
    obtain ⟨session, held⟩ := d
    cases held <;> exact h
  | set name value =>
    refine ⟨h.changed fun other hother => ?_, by simp [serve]⟩
    exact Store.get?_set_ne _ value fun heq => hspares (heq ▸ hother)
  | unset name =>
    refine ⟨h.changed fun other hother => ?_, by simp [serve]⟩
    exact Store.get?_erase_ne _ fun heq => hspares (heq ▸ hother)
  | setAll pairs =>
    refine ⟨h.changed fun other hother => ?_, by simp [serve]⟩
    exact Store.get?_setAll_of_ne (fun p hp heq => hspares p hp (heq ▸ hother)) _

theorem handsOver_serveAll {d : Desk} (h : Reached d.session.store)
    {turns : List (Catalog × Request)} (hspares : ∀ t ∈ turns, t.2.SparesReserved)
    (hkeeps : ∀ e ∈ (d.serveAll turns).1, e.KeepsReserved) :
    ∀ e ∈ (d.serveAll turns).1, e.HandsOver := by
  induction turns generalizing d with
  | nil => simp [serveAll]
  | cons turn turns ih =>
    obtain ⟨catalog, request⟩ := turn
    obtain ⟨hrequest, hrequests⟩ := List.forall_mem_cons.1 hspares
    simp only [serveAll, List.mem_append, Option.mem_toList] at hkeeps ⊢
    obtain ⟨hnext, hhands⟩ := reached_serve h hrequest fun e he => hkeeps e (.inl he)
    rintro e (he | he)
    · exact hhands e he
    · exact ih hnext hrequests (fun e he => hkeeps e (.inr he)) e he

end Desk

/-- Whenever a body starts, the store holds the arguments of its invocation and no others: their
number is read, an argument that the invocation does not have is read as the default, and there are
as many arguments as the invocation has. This holds for every run on a store that began without
reserved variables and was changed only by runs whose bodies keep the reserved variables, and by
others who keep them too; and so for all that a session is asked for. -/
theorem arguments_of_own_step :
    (∀ (engine : Engine) (env : Env) (invs : List Invocation), Reached env.store →
      (engine.execute env invs).KeepsReserved →
      ∀ r ∈ (engine.execute env invs).records, r.HandsOver) ∧
    ∀ (d : Desk) (turns : List (Catalog × Request)),
      (∀ name, Reserved name → d.session.store.get? name = none) →
      (∀ t ∈ turns, t.2.SparesReserved) →
      (∀ e ∈ (d.serveAll turns).1, e.KeepsReserved) →
      ∀ e ∈ (d.serveAll turns).1, ∀ run, e.outcome = .ok run → ∀ r ∈ run.records, r.HandsOver := by
  refine ⟨fun engine env invs h hkeeps => Engine.handsOver_execute h.accounted hkeeps, ?_⟩
  intro d turns hfresh hspares hkeeps
  exact Desk.handsOver_serveAll (.fresh hfresh) hspares hkeeps

/-! ## Commands that keep the reserved variables -/

/-- Where no command changes a reserved variable, no run does. -/
theorem Engine.keepsReserved_execute {engine : Engine}
    (h : ∀ command ∈ engine.catalog.commands, ∀ found name, Reserved name →
      (command.body found).store.get? name = found.store.get? name)
    (env : Env) (invs : List Invocation) : (engine.execute env invs).KeepsReserved := by
  intro r hr
  cases hran : r.conduct with
  | ran command found effect =>
    obtain ⟨hfind, rfl⟩ := engine.ran_of_mem_steps hr hran
    exact h command (List.mem_of_find?_eq_some hfind) found
  | skipped | cancelled | unknown | short command => trivial

theorem Execution.keepsReserved_run {engine : Engine}
    (h : ∀ command ∈ engine.catalog.commands, ∀ found name, Reserved name →
      (command.body found).store.get? name = found.store.get? name)
    (env : Env) (source : String) : (engine.run env source).KeepsReserved := by
  intro run hrun
  rcases engine.run_cases env source with ⟨error, houtcome, -⟩ | ⟨invs, -, houtcome, -⟩
  · rw [houtcome] at hrun
    nomatch hrun
  · obtain rfl := Except.ok.inj (houtcome.symm.trans hrun)
    exact Engine.keepsReserved_execute h env invs

/-- A probe changes no variable but that of the calls, unless it is told to. -/
theorem Probe.get?_body {probe : Probe} (h : probe ∉ [.setInt, .setFloat, .setBool]) (env : Env)
    {name : String} (hname : name ≠ callsName) :
    (probe.body env).store.get? name = env.store.get? name := by
  cases probe with
  | setInt | setFloat | setBool => simp at h
  | crashEarly => rfl
  | _ => exact Store.get?_set_ne _ _ hname

/-- Steps with many arguments, none, too few, without a command, failing and crashing, in two runs
with a change between them; the last step is handed what the first of the second run was. -/
theorem arguments_of_own_step_mixed :
    let catalog : Catalog := ⟨[Probe.count.command "Count" "" 0, Probe.crash.command "Crash" "" 0,
      Probe.giveUp.command "Quit" "" 3], by decide⟩
    let engine : Engine := { catalog, policy := .proceed }
    let env : Env := ⟨"", ∅, false, none⟩
    let invs : List Invocation :=
      [⟨"Crash", [⟨[.literal "a"]⟩, ⟨[.literal "b"]⟩], 1, 0⟩, ⟨"Count", [], 2, 10⟩]
    let d := Desk.start (.start "" .recorder)
    let turns : List (Catalog × Request) :=
      [(catalog, .run .proceed "Count a b c\nLost x y\nCrash a b\nQuit a\nQuit a b c d"),
        (catalog, .set "calls" (.int 7)), (catalog, .run .abort "Count e f\nCount $Argument1")]
    Reached env.store ∧ (engine.execute env invs).KeepsReserved ∧
      (∀ r ∈ (engine.execute env invs).records, r.HandsOver) ∧
      (engine.execute env invs).results.map (·.outcome.message) =
        [some "`Crash` panicked: boom", some "0:"] ∧
      (∀ name, Reserved name → d.session.store.get? name = none) ∧
      (∀ t ∈ turns, t.2.SparesReserved) ∧ (∀ e ∈ (d.serveAll turns).1, e.KeepsReserved) ∧
      (∀ e ∈ (d.serveAll turns).1, ∀ run, e.outcome = .ok run → ∀ r ∈ run.records, r.HandsOver) ∧
      (d.serveAll turns).1.map (·.outcome.toOption.map Run.statuses) =
        [some [.pass, .error, .error, .error, .error], some [.pass, .pass]] := by
  intro catalog engine env invs d turns
  have hkeeps : ∀ command ∈ catalog.commands, ∀ found name, Reserved name →
      (command.body found).store.get? name = found.store.get? name := by
    intro command hcommand found name hname
    have hcalls : name ≠ Probe.callsName := fun heq => absurd (heq ▸ hname) (by decide)
    simp only [catalog, List.mem_cons, List.not_mem_nil, or_false] at hcommand
    rcases hcommand with rfl | rfl | rfl <;> exact Probe.get?_body (by decide) found hcalls
  obtain ⟨hruns, hdesks⟩ := arguments_of_own_step
  have hreached : Reached env.store := .fresh fun name _ => rfl
  have hrun : (engine.execute env invs).KeepsReserved :=
    Engine.keepsReserved_execute hkeeps env invs
  have hfresh : ∀ name, Reserved name → d.session.store.get? name = none := fun name _ => rfl
  have hspares : ∀ t ∈ turns, t.2.SparesReserved := by
    intro t ht
    simp only [turns, List.mem_cons, List.not_mem_nil, or_false] at ht
    rcases ht with rfl | rfl | rfl
    · trivial
    · exact (by decide : ¬ Reserved "calls")
    · trivial
  have hserved : ∀ e ∈ (d.serveAll turns).1, e.KeepsReserved := by
    intro e he
    rcases List.mem_cons.1 he with rfl | he
    · exact Execution.keepsReserved_run hkeeps _ _
    · obtain rfl := List.mem_singleton.1 he
      exact Execution.keepsReserved_run hkeeps _ _
  exact ⟨hreached, hrun, hruns engine env invs hreached hrun, by decide +kernel, hfresh, hspares,
    hserved, hdesks d turns hfresh hspares hserved, by decide +kernel⟩

end Runbook
