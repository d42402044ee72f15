import Runbook.Proofs.Run.Punctual
import Runbook.Run.Event

/-!
# Runs with a time limit

A time limit may strike at any moment of a run: as a step is taken up, before its body, while the
body waits, after the body, or when all steps are done. Up to then the run goes as it would without
the limit (`limited_step`). The step in which it strikes is refused, cut short or done as ever, and
the later ones are skipped (`Engine.StruckAt`, `limited_steps`). All that is asked of the commands
is that they are punctual.
-/

namespace Runbook

/-! ## One step -/

/-- The result of the same invocation if it is refused or cut short. -/
def Result.cancelled (r : Result) : Result := { r with outcome := .error "cancelled" }

/-- The progress with a time limit that is still to strike. -/
def Progress.within (p : Progress) (left : Nat) : Progress := { p with env := p.env.within left }

theorem Catalog.Punctual.of_find? {catalog : Catalog} (h : catalog.Punctual) {name : String}
    {command : Command} (hfind : catalog.find? name = some command) : command.Punctual :=
  h command (List.mem_of_find?_eq_some hfind)

namespace Engine

variable {engine : Engine} {p : Progress} {timed : Env}

theorem entry_of_free (h : p.env.Free) (inv : Invocation) :
    engine.entry p inv = { p.env with store := p.env.store.bind p.bound inv } := by
  have hlimit : ({ p.env with store := p.env.store.bind p.bound inv } : Env).remaining = none :=
    h.unlimited
  exact Env.elapse_of_unlimited hlimit _

theorem free_entry (h : p.env.Free) (inv : Invocation) : (engine.entry p inv).Free := by
  rw [entry_of_free h]
  exact ⟨h.live, h.unlimited⟩

theorem limited_entry (hfree : p.env.Free) (h : p.env.Limited timed) (inv : Invocation) :
    (engine.entry p inv).Limited (engine.entry { p with env := timed } inv) := by
  have hbound := h.setStore (p.env.store.bind p.bound inv)
  have helapse := Env.limited_elapse (by exact ⟨hfree.live, hfree.unlimited⟩) hbound
    (engine.pace.entering p.taken)
  rw [entry_of_free hfree]
  unfold entry
  dsimp only
  rw [h.store_eq]
  exact helapse

/-- An attempt without a limit leaves the run free, and its outcome is that of no cancelled step. -/
theorem free_attempt (hcatalog : engine.catalog.Punctual) (h : p.env.Free) (inv : Invocation) :
    (engine.attempt p inv).2.1.Free ∧ ((engine.attempt p inv).1.outcome inv).Genuine := by
  rcases engine.attempt_cases p inv with ⟨-, hdid⟩ | ⟨command, hfind, ⟨-, hdid⟩ | ⟨-, hdid⟩⟩
  · rw [hdid]
    exact ⟨h, Outcome.genuine_unknown inv.name⟩
  · rw [hdid]
    exact ⟨h, Outcome.genuine_short command.minArguments inv.arguments.length⟩
  · have hpunctual := hcatalog.of_find? hfind
    have hentry : (engine.entry p inv).Free := free_entry h inv
    obtain ⟨outcome, hending, hgenuine⟩ := hpunctual.finishes _ hentry
    rw [hdid]
    refine ⟨Effect.free_env hentry (hpunctual.live _ hentry), ?_⟩
    simpa only [Conduct.outcome, hending, Ending.outcome] using hgenuine

/-- With a limit an attempt leaves what it leaves without one, up to the limit, and if it ends in
another way, it is cancelled. -/
theorem limited_attempt (hcatalog : engine.catalog.Punctual) (hfree : p.env.Free)
    (h : p.env.Limited timed) (inv : Invocation) :
    let did := engine.attempt p inv
    let timely := engine.attempt { p with env := timed } inv
    did.2.1.Limited timely.2.1 ∧ timely.2.2 = did.2.2 ∧
      (timely.1.outcome inv = did.1.outcome inv ∨
        timely.1.outcome inv = .error "cancelled" ∧ timely.2.1.cancelled = true) := by
  intro did timely
  rcases engine.attempt_cases p inv with ⟨hfind, hdid⟩ | ⟨command, hfind, ⟨hn, hdid⟩ | ⟨hn, hdid⟩⟩
  · simp only [did, timely, attempt, hfind]
    exact ⟨h, trivial, .inl trivial⟩
  · simp only [did, timely, attempt, hfind, hn, if_true]
    exact ⟨h, trivial, .inl trivial⟩
  · have hpunctual := hcatalog.of_find? hfind
    have hfound : (engine.entry p inv).Free := free_entry hfree inv
    have hentry : (engine.entry p inv).Limited (engine.entry { p with env := timed } inv) :=
      limited_entry hfree h inv
    simp only [did, timely, engine.attempt_of_find? hfind hn, Conduct.outcome]
    refine ⟨hpunctual.limited _ _ hfound hentry, trivial, ?_⟩
    rcases hpunctual.cut _ _ hfound hentry with heq | ⟨heq, hcancelled⟩
    · exact .inl (by rw [heq])
    · exact .inr ⟨by rw [heq]; rfl, hcancelled⟩

theorem arrival_of_free (h : p.env.Free) : engine.arrival p = p.env :=
  Env.elapse_of_unlimited h.unlimited _

theorem settle_env_of_free (inv : Invocation) {did : Conduct × Env × Nat} (h : did.2.1.Free) :
    (engine.settle p inv did).env = did.2.1 :=
  Env.elapse_of_unlimited h.unlimited _

/-- A step without a limit leaves the run free. -/
theorem free_step (hcatalog : engine.catalog.Punctual) (h : p.env.Free) (inv : Invocation) :
    (engine.step p inv).2.env.Free := by
  rcases engine.step_cases p inv with ⟨-, hstep⟩ | ⟨-, hcancelled, -⟩ | ⟨-, -, hstep⟩
  · rw [hstep]
    exact h
  · rw [arrival_of_free h, h.live] at hcancelled
    nomatch hcancelled
  · have hafter := (free_attempt hcatalog h inv).1
    rw [hstep, arrival_of_free h]
    dsimp only
    rw [settle_env_of_free inv hafter]
    exact hafter

/-- Without a limit, the outcome of a step that is not skipped is that of no cancelled step. -/
theorem genuine_step (hcatalog : engine.catalog.Punctual) (h : p.env.Free)
    (hs : p.stopped = false) (inv : Invocation) : (engine.step p inv).1.outcome.Genuine := by
  have hlive : (engine.arrival p).cancelled = false := by rw [arrival_of_free h, h.live]
  rw [engine.step_of_going hs hlive, arrival_of_free h]
  exact (free_attempt hcatalog h inv).2

/-- An attempt with a limit settles as one without, up to the limit; if the limit has struck by
then, the run stops. -/
theorem limited_settle {inv : Invocation} {left : Nat} {did timely : Conduct × Env × Nat}
    (hfree : did.2.1.Free) (h : did.2.1.Limited timely.2.1) (hbound : timely.2.2 = did.2.2)
    (houtcome : timely.1.outcome inv = did.1.outcome inv ∨
      timely.1.outcome inv = .error "cancelled" ∧ timely.2.1.cancelled = true) :
    (∃ next, engine.settle (p.within left) inv timely = (engine.settle p inv did).within next ∧
      timely.1.outcome inv = did.1.outcome inv) ∨
    (engine.settle (p.within left) inv timely).stopped = true ∧
      (timely.1.outcome inv = did.1.outcome inv ∨ timely.1.outcome inv = .error "cancelled") ∧
      (engine.settle (p.within left) inv timely).env = (engine.settle p inv did).env.struck := by
  have hlast := Env.limited_elapse hfree h (engine.pace.leaving p.taken)
  have helapse := Env.elapse_of_unlimited hfree.unlimited (engine.pace.leaving p.taken)
  cases hstrike : (timely.2.1.elapse (engine.pace.leaving p.taken)).cancelled with
  | true =>
    refine .inr ⟨?_, houtcome.imp_right And.left, ?_⟩
    · simp [settle, Progress.within, hstrike]
    · simp only [settle, Progress.within, helapse]
      exact hlast.eq_struck hfree hstrike
  | false =>
    have hsame : timely.1.outcome inv = did.1.outcome inv := by
      rcases houtcome with hsame | ⟨-, hcancelled⟩
      · exact hsame
      · rw [Env.cancelled_elapse hcancelled] at hstrike
        exact absurd hstrike (by decide)
    obtain ⟨next, hnext⟩ := hlast.eq_within hstrike
    refine .inl ⟨next, ?_, hsame⟩
    simp only [settle, Progress.within, hstrike, helapse, hfree.live, hbound, hsame]
    rw [hnext]

/-- What a limit may make of a step: nothing, if it is still to strike; else the run stops, and the
invocation is refused, cut short or done. -/
theorem limited_step (hcatalog : engine.catalog.Punctual) (hfree : p.env.Free) (left : Nat)
    (inv : Invocation) :
    let done := engine.step p inv
    let timely := engine.step (p.within left) inv
    (∃ next, timely.2 = done.2.within next ∧ timely.1.result = done.1.result) ∨
      timely.2.stopped = true ∧
        (timely.1.result = done.1.result.cancelled ∧ timely.2.env = p.env.struck ∨
          (timely.1.result = done.1.result ∨ timely.1.result = done.1.result.cancelled) ∧
            timely.2.env = done.2.env.struck) := by
  intro done timely
  by_cases hs : p.stopped = true
  · have hs' : (p.within left).stopped = true := hs
    simp only [done, timely, engine.step_of_stopped hs, engine.step_of_stopped hs']
    exact .inl ⟨left, rfl, trivial⟩
  rw [Bool.not_eq_true] at hs
  have hs' : (p.within left).stopped = false := hs
  have hlive : (engine.arrival p).cancelled = false := by rw [arrival_of_free hfree, hfree.live]
  have harrival : p.env.Limited (engine.arrival (p.within left)) :=
    Env.limited_elapse hfree (.pending left) _
  have hsame : timely.1.outcome = done.1.outcome → timely.1.result = done.1.result := by
    intro heq
    rw [engine.result_step, engine.result_step]
    exact congrArg (Result.mk inv.name (engine.description inv.name)) heq
  have hdiffers : timely.1.outcome = .error "cancelled" →
      timely.1.result = done.1.result.cancelled := by
    intro heq
    rw [engine.result_step, engine.result_step]
    exact congrArg (Result.mk inv.name (engine.description inv.name)) heq
  by_cases hc : (engine.arrival (p.within left)).cancelled = true
  · -- The limit has struck by the time the step is taken up.
    have htimely : timely = _ := engine.step_of_cancelled hs' hc inv
    refine .inr ⟨by rw [htimely], .inl ⟨hdiffers (by rw [htimely]; rfl), ?_⟩⟩
    rw [htimely]
    exact harrival.eq_struck hfree hc
  rw [Bool.not_eq_true] at hc
  have hdone : done = _ := engine.step_of_going hs hlive inv
  have htimely : timely = _ := engine.step_of_going hs' hc inv
  rw [arrival_of_free hfree] at hdone
  obtain ⟨hdid, hbound, houtcome⟩ := limited_attempt hcatalog hfree harrival inv
  rcases limited_settle (free_attempt hcatalog hfree inv).1 hdid hbound houtcome with
    ⟨next, hnext, heq⟩ | ⟨hstops, heq, hstruck⟩
  · refine .inl ⟨next, ?_, hsame ?_⟩
    · rw [hdone, htimely]
      exact hnext
    · rw [hdone, htimely]
      exact heq
  · refine .inr ⟨?_, .inr ⟨?_, ?_⟩⟩
    · rw [htimely]
      exact hstops
    · refine heq.imp (fun heq => hsame ?_) fun heq => hdiffers ?_
      · rw [hdone, htimely]
        exact heq
      · rw [htimely]
        exact heq
    · rw [hdone, htimely]
      exact hstruck

/-! ## Rows of steps -/

/-- The results of a row of steps. -/
def stepResults (engine : Engine) (p : Progress) (invs : List Invocation) : List Result :=
  (engine.steps p invs).1.map Record.result

/-- What a row of steps leaves if a limit strikes at invocation `j`, whose result would be `u` and
is `r`: the results before are those without the limit, the later invocations are skipped, and the
variables are those left by the steps before `j`, or by these and the one at `j`. -/
structure StruckAt (engine : Engine) (p : Progress) (invs : List Invocation)
    (timely : List Record × Progress) (j : Nat) (u r : Result) : Prop where
  here : (engine.stepResults p invs)[j]? = some u
  results : timely.1.map Record.result = (engine.stepResults p invs).take j ++
    r :: (invs.drop (j + 1)).map fun inv => (engine.skipped inv).result
  stopped : timely.2.stopped = true
  env : r = u.cancelled ∧ timely.2.env = (engine.steps p (invs.take j)).2.env.struck ∨
    (r = u ∨ r = u.cancelled) ∧ timely.2.env = (engine.steps p (invs.take (j + 1))).2.env.struck

variable {invs : List Invocation}

/-- A limit that strikes later in a row strikes one place later in the row with one more step. -/
theorem StruckAt.cons {inv : Invocation} {timely : List Record × Progress} {record : Record}
    {j : Nat} {u r : Result} (h : engine.StruckAt (engine.step p inv).2 invs timely j u r)
    (hrecord : record.result = (engine.step p inv).1.result) :
    engine.StruckAt p (inv :: invs) (record :: timely.1, timely.2) (j + 1) u r := by
  refine ⟨h.here, ?_, h.stopped, h.env⟩
  show record.result :: timely.1.map Record.result = _
  rw [h.results, hrecord]
  rfl

/-- What a limit may make of a row of steps: nothing, if it is still to strike; else it has struck
at one of them. -/
theorem limited_steps (hcatalog : engine.catalog.Punctual) (hfree : p.env.Free) (left : Nat)
    (invs : List Invocation) :
    (∃ next, (engine.steps (p.within left) invs).2 = (engine.steps p invs).2.within next ∧
      engine.stepResults (p.within left) invs = engine.stepResults p invs) ∨
    ∃ j u r, engine.StruckAt p invs (engine.steps (p.within left) invs) j u r := by
  -- What is left of the limit after a step is the limit of the steps behind it.
  induction invs generalizing p left with
  | nil => exact .inl ⟨left, rfl, rfl⟩
  | cons inv invs ih =>
    rcases limited_step hcatalog hfree left inv with ⟨next, hnext, hresult⟩ | ⟨hstopped, hstruck⟩
    · have htimely : engine.steps (p.within left) (inv :: invs) =
          ((engine.step (p.within left) inv).1 ::
            (engine.steps ((engine.step p inv).2.within next) invs).1,
            (engine.steps ((engine.step p inv).2.within next) invs).2) := by
        rw [steps_cons, hnext]
      rcases ih (free_step hcatalog hfree inv) next with ⟨last, hlast, hresults⟩ | ⟨j, u, r, h⟩
      · refine .inl ⟨last, ?_, ?_⟩
        · rw [htimely]
          exact hlast
        · unfold stepResults at hresults ⊢
          rw [htimely, steps_cons, List.map_cons, List.map_cons, hresult, hresults]
      · rw [htimely]
        exact .inr ⟨j + 1, u, r, h.cons hresult⟩
    · have htimely : engine.steps (p.within left) (inv :: invs) =
          ((engine.step (p.within left) inv).1 :: invs.map engine.skipped,
            { (engine.step (p.within left) inv).2 with
              taken := (engine.step (p.within left) inv).2.taken + invs.length }) := by
        rw [steps_cons, engine.steps_of_stopped hstopped]
      refine .inr ⟨0, (engine.step p inv).1.result, (engine.step (p.within left) inv).1.result, ?_⟩
      rw [htimely]
      refine ⟨rfl, ?_, hstopped, hstruck⟩
      simp

theorem free_steps (hcatalog : engine.catalog.Punctual) (hfree : p.env.Free)
    (invs : List Invocation) : (engine.steps p invs).2.env.Free := by
  induction invs generalizing p with
  | nil => exact hfree
  | cons inv invs ih => exact ih (free_step hcatalog hfree inv)

/-- Without a limit no result is that of a cancelled step. -/
theorem ne_cancelled_of_mem_stepResults (hcatalog : engine.catalog.Punctual) (hfree : p.env.Free)
    {u : Result} (hu : u ∈ engine.stepResults p invs) : u.outcome ≠ .error "cancelled" := by
  induction invs generalizing p with
  | nil => simp [stepResults, steps] at hu
  | cons inv invs ih =>
    unfold stepResults at hu
    rw [steps_cons] at hu
    rcases List.mem_cons.1 hu with rfl | hu
    · by_cases hs : p.stopped = true
      · rw [engine.step_of_stopped hs]
        exact (by decide : (⟨.skipped, none⟩ : Outcome) ≠ .error "cancelled")
      · exact (genuine_step hcatalog hfree ((Bool.not_eq_true _).mp hs) inv).ne_cancelled
    · exact ih (free_step hcatalog hfree inv) hu

theorem drop_stepResults (engine : Engine) (p : Progress) {invs : List Invocation} {k : Nat}
    (h : k ≤ invs.length) : (engine.stepResults p invs).drop k =
      engine.stepResults (engine.steps p (invs.take k)).2 (invs.drop k) := by
  have hsplit := engine.steps_append p (invs.take k) (invs.drop k)
  rw [List.take_append_drop] at hsplit
  unfold stepResults
  rw [hsplit, List.map_append, List.drop_left']
  simp [h]

/-- If without a limit all results are those of skipped steps, nothing has been done. -/
theorem env_of_stepResults_skipped (hcatalog : engine.catalog.Punctual) (hfree : p.env.Free)
    (h : engine.stepResults p invs = invs.map fun inv => (engine.skipped inv).result) :
    (engine.steps p invs).2.env = p.env := by
  cases invs with
  | nil => rfl
  | cons inv invs =>
    have hfirst : (engine.step p inv).1.result = (engine.skipped inv).result :=
      (List.cons.inj h).1
    cases hs : p.stopped with
    | true => rw [engine.steps_of_stopped hs]
    | false =>
      have hstatus : (engine.step p inv).1.outcome.status = .skipped :=
        congrArg (fun r : Result => r.outcome.status) hfirst
      exact absurd hstatus (genuine_step hcatalog hfree hs inv).ne_skipped

/-- If the limit shows in no result, it shows in no variable either. -/
theorem StruckAt.store_eq {timely : List Record × Progress} {j : Nat} {u r : Result}
    (h : engine.StruckAt p invs timely j u r) (hcatalog : engine.catalog.Punctual)
    (hfree : p.env.Free) (hsame : timely.1.map Record.result = engine.stepResults p invs) :
    timely.2.env.store = (engine.steps p invs).2.env.store := by
  have hj : j < invs.length := by
    simpa [stepResults] using (List.getElem?_eq_some_iff.1 h.here).1
  have hlength : ((engine.stepResults p invs).take j).length = j := by
    simp [stepResults, Nat.le_of_lt hj]
  have hall := h.results
  rw [hsame] at hall
  have hru : r = u := by
    have hget := h.here
    rw [hall, List.getElem?_append_right (Nat.le_of_eq hlength), hlength, Nat.sub_self] at hget
    exact Option.some.inj hget
  have hgenuine := ne_cancelled_of_mem_stepResults hcatalog hfree (List.mem_of_getElem? h.here)
  have hstore : timely.2.env.store = (engine.steps p (invs.take (j + 1))).2.env.store := by
    rcases h.env with ⟨hr, -⟩ | ⟨-, henv⟩
    · have hu : u.outcome = .error "cancelled" := congrArg Result.outcome (hru.symm.trans hr)
      exact absurd hu hgenuine
    · rw [henv]
      rfl
  -- Behind `j` all results are those of skipped steps, so without the limit nothing is done there.
  have hlater : engine.stepResults (engine.steps p (invs.take (j + 1))).2 (invs.drop (j + 1)) =
      (invs.drop (j + 1)).map fun inv => (engine.skipped inv).result := by
    rw [← engine.drop_stepResults p hj, hall, List.drop_append, hlength]
    simp [hlength]
  have hnothing := env_of_stepResults_skipped hcatalog
    (free_steps hcatalog hfree (invs.take (j + 1))) hlater
  have hsplit := engine.steps_append p (invs.take (j + 1)) (invs.drop (j + 1))
  rw [List.take_append_drop] at hsplit
  rw [hstore, hsplit]
  exact congrArg Env.store hnothing.symm

theorem StruckAt.unlimited {timely : List Record × Progress} {j : Nat} {u r : Result}
    (h : engine.StruckAt p invs timely j u r) (hcatalog : engine.catalog.Punctual)
    (hfree : p.env.Free) : timely.2.env.remaining = none := by
  rcases h.env with ⟨-, henv⟩ | ⟨-, henv⟩
  · rw [henv]
    exact (free_steps hcatalog hfree _).unlimited
  · rw [henv]
    exact (free_steps hcatalog hfree _).unlimited

/-! ## Runs -/

/-- The run is that over these invocations in these surroundings, cut off by a limit at invocation
`j`. Up to there its results are those without the limit. The one of invocation `j` is too, or it is
that of a cancelled step, and all later invocations are skipped. The variables are those left by the
invocations before `j`, or by these and the one at `j`. -/
structure CutAt (engine : Engine) (env : Env) (invs : List Invocation) (run : Run) (j : Nat) :
    Prop where
  results : ∃ u r, (engine.execute env invs).results[j]? = some u ∧ (r = u ∨ r = u.cancelled) ∧
    run.results = (engine.execute env invs).results.take j ++
      r :: (invs.drop (j + 1)).map fun inv =>
        ⟨inv.name, engine.description inv.name, ⟨.skipped, none⟩⟩
  state : run.state = .aborted
  store : run.env.store = (engine.execute env (invs.take j)).env.store ∨
    run.env.store = (engine.execute env (invs.take (j + 1))).env.store

/-- A time limit changes nothing in the results of a run and then nothing in its variables, or it
cuts the run off at one of the invocations. If it has not struck, the run is not cancelled. -/
theorem limited_execute {env : Env} (hcatalog : engine.catalog.Punctual) (hfree : env.Free)
    (limit : Nat) (invs : List Invocation) :
    let run := engine.execute (env.within limit) invs
    let free := engine.execute env invs
    (run.results = free.results ∨ ∃ j, engine.CutAt env invs run j) ∧
      (run.results = free.results → run.env.store = free.env.store) ∧
      (run.env.remaining = none ∨ run.env.cancelled = false) := by
  intro run free
  have hstart : (Progress.start env).env.Free := hfree
  have hstore : run.env.store = _ := engine.store_execute (env.within limit) invs
  rcases limited_steps hcatalog hstart limit invs with ⟨next, hnext, hresults⟩ | ⟨j, u, r, h⟩
  · have hlimited : (engine.steps (.start env) invs).2.env.Limited run.env := by
      have hlast := Env.limited_elapse (free_steps hcatalog hstart invs) (.pending next)
        (engine.pace.arriving (engine.steps (.start (env.within limit)) invs).2.taken)
      have henv : (engine.steps (.start (env.within limit)) invs).2.env =
          (engine.steps (.start env) invs).2.env.within next := congrArg Progress.env hnext
      rwa [← henv] at hlast
    refine ⟨.inl hresults, fun _ => ?_, ?_⟩
    · exact hlimited.store_eq.trans (engine.store_execute env invs).symm
    · exact hlimited.struck_or_live (free_steps hcatalog hstart invs)
  · refine ⟨.inr ⟨j, ⟨u, r, h.here, ?_, h.results⟩, if_pos h.stopped, ?_⟩, fun hsame => ?_, ?_⟩
    · exact h.env.elim (fun hcut => .inr hcut.1) And.left
    · rw [hstore, store_execute, store_execute]
      rcases h.env with ⟨-, hcut⟩ | ⟨-, hdone⟩
      · exact .inl (congrArg Env.store hcut :)
      · exact .inr (congrArg Env.store hdone :)
    · rw [hstore, store_execute]
      exact h.store_eq hcatalog hstart hsame
    · refine .inl ((congrArg Env.remaining (Env.elapse_of_unlimited ?_ _)).trans ?_)
      · exact h.unlimited hcatalog hstart
      · exact h.unlimited hcatalog hstart

end Engine

end Runbook
