import Runbook.Proofs.Invocation.Lines
import Runbook.Proofs.Run.Continuation
import Runbook.Proofs.Run.Shape
import Runbook.Session

/-!
# Consecutive runs of a session

Two scripts run one after the other in a session do what the one script made of both does, if the
first run completes: same results, same variables, same reports, same token (`execute_append`). The
joined script says what the two say, the second one further down, and a run does not look at where
its invocations stand (`execute_map_moved`).
-/

namespace Runbook

/-! ## Where invocations stand -/

/-- The same record of an invocation that stands further down. -/
def Record.moved (lines bytes : Nat) (r : Record) : Record :=
  { r with invocation := r.invocation.moved lines bytes }

theorem Record.result_moved (lines bytes : Nat) (r : Record) :
    (r.moved lines bytes).result = r.result := by
  obtain ⟨inv, description, conduct, stops⟩ := r
  cases conduct <;> rfl

namespace Run

/-- The same run over invocations that stand further down. -/
def moved (lines bytes : Nat) (run : Run) : Run :=
  { run with records := run.records.map (Record.moved lines bytes) }

variable (lines bytes : Nat) (run : Run)

@[simp] theorem results_moved : (run.moved lines bytes).results = run.results := by
  unfold results moved
  rw [List.map_map]
  exact List.map_congr_left fun r _ => r.result_moved lines bytes

@[simp] theorem reports_moved : (run.moved lines bytes).reports = run.reports := by
  unfold reports moved
  rw [List.flatMap_map]
  rfl

@[simp] theorem state_moved : (run.moved lines bytes).state = run.state := rfl

@[simp] theorem env_moved : (run.moved lines bytes).env = run.env := rfl

end Run

namespace Engine

variable (engine : Engine) (lines bytes : Nat)

theorem step_moved (p : Progress) (inv : Invocation) :
    engine.step p (inv.moved lines bytes) =
      ((engine.step p inv).1.moved lines bytes, (engine.step p inv).2) := by
  unfold step
  split
  · rfl
  · dsimp only
    split
    · rfl
    · rfl

theorem steps_map_moved (p : Progress) (invs : List Invocation) :
    engine.steps p (invs.map (Invocation.moved lines bytes)) =
      ((engine.steps p invs).1.map (Record.moved lines bytes), (engine.steps p invs).2) := by
  induction invs generalizing p with
  | nil => rfl
  | cons inv invs ih =>
    rw [List.map_cons, steps_cons, step_moved, ih, steps_cons, List.map_cons]

/-- A run does not look at where its invocations stand. -/
theorem execute_map_moved (env : Env) (invs : List Invocation) :
    engine.execute env (invs.map (Invocation.moved lines bytes)) =
      (engine.execute env invs).moved lines bytes := by
  unfold execute
  rw [steps_map_moved]
  rfl

end Engine

/-! ## Surroundings of consecutive runs -/

namespace Env

/-- In the same session, and without a time limit if there was none. -/
structure Follows (next env : Env) : Prop where
  session : next.session = env.session
  remaining : env.remaining = none → next.remaining = none

theorem Follows.refl (env : Env) : env.Follows env := ⟨rfl, id⟩

theorem Follows.trans {a b c : Env} (hab : b.Follows a) (hbc : c.Follows b) : c.Follows a :=
  ⟨hbc.session.trans hab.session, fun h => hbc.remaining (hab.remaining h)⟩

theorem follows_elapse (env : Env) (n : Nat) : (env.elapse n).Follows env := by
  obtain ⟨session, store, cancelled, remaining⟩ := env
  cases remaining with
  | none => exact .refl _
  | some left =>
    unfold elapse
    dsimp only
    split
    · exact ⟨rfl, nofun⟩
    · exact ⟨rfl, nofun⟩

theorem follows_effect (effect : Effect) (env : Env) : (effect.env env).Follows env := by
  refine ⟨rfl, fun h => ?_⟩
  unfold Effect.env
  rw [h]
  rfl

end Env

namespace Engine

variable (engine : Engine)

theorem follows_attempt (p : Progress) (inv : Invocation) :
    (engine.attempt p inv).2.1.Follows p.env := by
  rcases engine.attempt_cases p inv with ⟨-, hdid⟩ | ⟨command, -, ⟨-, hdid⟩ | ⟨-, hdid⟩⟩
  · rw [hdid]
    exact .refl _
  · rw [hdid]
    exact .refl _
  · rw [hdid]
    let bound : Env := { p.env with store := p.env.store.bind p.bound inv }
    have hbound : bound.Follows p.env := ⟨rfl, id⟩
    have hentry : (engine.entry p inv).Follows p.env := hbound.trans (Env.follows_elapse bound _)
    exact hentry.trans (Env.follows_effect _ _)

theorem follows_step (p : Progress) (inv : Invocation) :
    (engine.step p inv).2.env.Follows p.env := by
  have harrival : (engine.arrival p).Follows p.env := Env.follows_elapse p.env _
  rcases engine.step_cases p inv with ⟨-, hstep⟩ | ⟨-, -, hstep⟩ | ⟨-, -, hstep⟩
  · rw [hstep]
    exact .refl _
  · rw [hstep]
    exact harrival
  · rw [hstep]
    have hdid := engine.follows_attempt { p with env := engine.arrival p } inv
    exact (harrival.trans hdid).trans (Env.follows_elapse _ _)

theorem follows_steps (p : Progress) (invs : List Invocation) :
    (engine.steps p invs).2.env.Follows p.env := by
  induction invs generalizing p with
  | nil => exact .refl _
  | cons inv invs ih =>
    rw [steps_cons]
    exact (engine.follows_step p inv).trans (ih _)

theorem follows_execute (env : Env) (invs : List Invocation) :
    (engine.execute env invs).env.Follows env :=
  (engine.follows_steps (.start env) invs).trans (Env.follows_elapse _ _)

end Engine

/-! ## Scripts in a session -/

namespace Session

/-- The session as a run leaves it. -/
def left (s : Session) (run : Run) : Session :=
  { s with
    store := run.env.store
    sink := s.sink.reportAll run.reports
    token := { s.token with cancelled := run.env.cancelled } }

variable (s : Session) (engine : Engine)

theorem run_of_parse {source : String} {invs : List Invocation} (h : parse source = .ok invs) :
    let run := engine.execute (s.env none) invs
    (s.run engine source).1.outcome = .ok run ∧ (s.run engine source).2 = s.left run := by
  unfold Session.run Engine.run
  rw [h]
  exact ⟨rfl, rfl⟩

/-- The next run finds what a run has left. -/
theorem env_left (invs : List Invocation) :
    let run := engine.execute (s.env none) invs
    (s.left run).env none = run.env := by
  intro run
  have hfollows := engine.follows_execute (s.env none) invs
  have heq : ∀ e : Env, e.session = s.id → e.remaining = none →
      Env.mk s.id e.store e.cancelled none = e := by
    rintro ⟨session, store, cancelled, remaining⟩ rfl rfl
    rfl
  exact heq run.env hfollows.session (hfollows.remaining rfl)

end Session

/-- Two scripts that can be read make one with a line feed between them. -/
theorem exists_parse_feed {a b : String} {xs ys : List Invocation} (ha : parse a = .ok xs)
    (hb : parse b = .ok ys) :
    ∃ lines bytes, parse (a ++ "\n" ++ b) = .ok (xs ++ ys.map (Invocation.moved lines bytes)) := by
  refine ⟨Text.lineEnds (a.toList ++ ['\n']), Text.byteLength a.toList + 1, ?_⟩
  unfold parse at ha hb ⊢
  rw [String.toList_append, String.toList_append, List.append_assoc]
  show Invocation.ofChars (a.toList ++ ('\n' :: b.toList)) = _
  rw [Invocation.ofChars_feed, ha, hb]
  rfl

/-- Splitting a script over several runs of a session changes nothing, as long as no body of the
first run changes the number of arguments as it is read. If the first run completes, the second
goes on from what it has left; if it aborts, all that is behind it is skipped. The runs of two
scripts are the run of the one script made of both, if the first of them completes. -/
theorem execute_append (catalog : Catalog) (policy : Policy) :
    let engine : Engine := { catalog, policy }
    (∀ (env : Env) (xs ys : List Invocation),
      let first := engine.execute env xs
      let second := engine.execute first.env ys
      let whole := engine.execute env (xs ++ ys)
      first.KeepsCount →
        (first.state = .completed →
          whole.results = first.results ++ second.results ∧ whole.state = second.state ∧
          whole.env = second.env ∧
          ∀ sink : Sink, sink.reportAll whole.reports =
            (sink.reportAll first.reports).reportAll second.reports) ∧
        (first.state = .aborted →
          whole.results = first.results ++
            ys.map (fun inv => ⟨inv.name, engine.description inv.name, ⟨.skipped, none⟩⟩) ∧
          whole.state = .aborted ∧ whole.env = first.env ∧
          ∀ sink : Sink, sink.reportAll whole.reports = sink.reportAll first.reports)) ∧
    ∀ (s : Session) (a b : String) (xs ys : List Invocation),
      parse a = .ok xs → parse b = .ok ys →
      let one := s.run engine a
      let two := one.2.run engine b
      let both := s.run engine (a ++ "\n" ++ b)
      ∃ first second whole, one.1.outcome = .ok first ∧ two.1.outcome = .ok second ∧
        both.1.outcome = .ok whole ∧
        (first.KeepsCount → first.state = .completed →
          whole.results = first.results ++ second.results ∧ whole.state = second.state ∧
          both.2 = two.2) := by
  intro engine
  have hpace : engine.pace = .instant := rfl
  refine ⟨?_, ?_⟩
  · intro env xs ys first second whole hkeeps
    constructor
    · intro hcompleted
      have hwhole : whole = first.followedBy second :=
        Engine.execute_append_of_completed hpace hkeeps
          ((Bool.not_eq_true _).mp (first.state_eq_completed_iff.1 hcompleted)) ys
      rw [hwhole]
      refine ⟨first.results_followedBy second, first.state_followedBy second,
        first.env_followedBy second, fun sink => ?_⟩
      rw [Run.reports_followedBy, Sink.reportAll_append]
    · intro haborted
      have hstopped := first.state_eq_aborted_iff.1 haborted
      have hwhole : whole = _ := Engine.execute_append_of_aborted hpace hstopped ys
      rw [hwhole]
      refine ⟨?_, haborted, rfl, fun sink => ?_⟩
      · unfold Run.results
        rw [List.map_append, engine.results_map_skipped]
      · unfold Run.reports
        rw [List.flatMap_append, engine.reports_map_skipped, List.append_nil]
  · intro s a b xs ys ha hb one two both
    obtain ⟨lines, bytes, hparse⟩ := exists_parse_feed ha hb
    -- three runs: of the first script, of the second on what it leaves, and of both as one
    obtain ⟨hone, hleft⟩ := s.run_of_parse engine ha
    obtain ⟨htwo, hlast⟩ := one.2.run_of_parse engine hb
    obtain ⟨hboth, hend⟩ := s.run_of_parse engine hparse
    refine ⟨_, _, _, hone, htwo, hboth, ?_⟩
    intro hkeeps hcompleted
    have hstopped := (Bool.not_eq_true _).mp ((Run.state_eq_completed_iff _).1 hcompleted)
    have hfound : one.2.env none = (engine.execute (s.env none) xs).env := by
      rw [hleft]
      exact s.env_left engine xs
    have hwhole := Engine.execute_append_of_completed hpace hkeeps hstopped
      (ys.map (Invocation.moved lines bytes))
    dsimp only at hwhole hlast hend
    rw [engine.execute_map_moved, ← hfound] at hwhole
    generalize engine.execute (one.2.env none) ys = second at hwhole hlast
    rw [hlast, hend, hleft, hwhole]
    simp only [Run.results_followedBy, Run.results_moved, Run.state_followedBy, Run.state_moved,
      true_and]
    unfold Session.left
    simp only [Run.env_followedBy, Run.env_moved, Run.reports_followedBy, Run.reports_moved,
      Sink.reportAll_append]

theorem Command.argumentCount_updateStatus (env : Env) :
    ((updateStatus.body env).env env).argumentCount = env.argumentCount := by
  have hname : argumentCountName ≠ statusName := by decide
  unfold Env.argumentCount Store.read
  show (((env.store.set statusName _).get? argumentCountName).bind _).getD 0 = _
  rw [Store.get?_set_ne _ _ hname]

/-- The second script takes up the argument of the first, whose last line ends in a carriage return;
a name without a command stops a run. -/
theorem execute_append_status :
    let catalog : Catalog := ⟨[Command.updateStatus], by decide⟩
    let engine : Engine := { catalog, policy := .abort }
    let s := Session.start "default" .recorder
    let a := "UpdateStatus on\r"
    let b := "UpdateStatus $Argument0\nLost"
    let xs : List Invocation := [⟨"UpdateStatus", [⟨[.literal "on"]⟩], 1, 0⟩]
    let ys : List Invocation :=
      [⟨"UpdateStatus", [⟨[.variable "Argument0"]⟩], 1, 0⟩, ⟨"Lost", [], 2, 24⟩]
    let first := engine.execute (s.env none) xs
    let second := engine.execute first.env ys
    parse a = .ok xs ∧ parse b = .ok ys ∧ first.KeepsCount ∧ first.state = .completed ∧
      (engine.execute (s.env none) (xs ++ ys)).results = first.results ++ second.results ∧
      (s.run engine (a ++ "\n" ++ b)).2 = ((s.run engine a).2.run engine b).2 ∧
      (engine.execute (s.env none) (ys.drop 1)).KeepsCount ∧
      (engine.execute (s.env none) (ys.drop 1)).state = .aborted ∧
      (engine.execute (s.env none) (ys.drop 1 ++ xs)).state = .aborted := by
  intro catalog engine s a b xs ys first second
  obtain ⟨hruns, hscripts⟩ := execute_append catalog .abort
  have ha : parse a = .ok xs := by cbv
  have hb : parse b = .ok ys := by cbv
  have hkeeps : first.KeepsCount := by
    intro r hr
    obtain rfl := List.mem_singleton.1 hr
    exact Command.argumentCount_updateStatus _
  have hcompleted : first.state = .completed := rfl
  have hlost : (engine.execute (s.env none) (ys.drop 1)).KeepsCount := by
    intro r hr
    obtain rfl := List.mem_singleton.1 hr
    trivial
  have haborted : (engine.execute (s.env none) (ys.drop 1)).state = .aborted := rfl
  obtain ⟨hresults, -, -, -⟩ := (hruns (s.env none) xs ys hkeeps).1 hcompleted
  obtain ⟨-, hstate, -, -⟩ := (hruns (s.env none) (ys.drop 1) xs hlost).2 haborted
  obtain ⟨one, two, both, hone, -, -, hsame⟩ := hscripts s a b xs ys ha hb
  obtain rfl : one = first := Except.ok.inj (hone.symm.trans (s.run_of_parse engine ha).1)
  obtain ⟨-, -, hend⟩ := hsame hkeeps hcompleted
  exact ⟨ha, hb, hkeeps, hcompleted, hresults, hend, hlost, haborted, hstate⟩

end Runbook
