import Runbook.Proofs.Run.Deadline
import Runbook.Proofs.Session.Consecutive

/-!
# Sessions whose runs time out

A run with a time limit leaves a session that can be used again, wherever the limit strikes
(`runWithin_consistent`): what it has done is what the run without the limit would have done up to
that moment, and the cancellation of the limit is gone after it. Sessions that differ at most in the
serial numbers of their tokens (`Session.Alike`) cannot be told apart by their runs (`Alike.run`,
`Alike.runWithin`).
-/

namespace Runbook

namespace Session

/-- The sessions differ at most in the serial numbers of their tokens. -/
structure Alike (a b : Session) : Prop where
  id : a.id = b.id
  store : a.store = b.store
  sink : a.sink = b.sink
  cancelled : a.token.cancelled = b.token.cancelled

variable {a b : Session}

theorem Alike.env_eq (h : a.Alike b) (limit : Option Nat) : a.env limit = b.env limit := by
  unfold env
  rw [h.id, h.store, h.cancelled]

theorem Alike.after (h : a.Alike b) (e : Execution) : (a.after e).Alike (b.after e) :=
  ⟨h.id, rfl, congrArg (Sink.reportAll · e.reports) h.sink, rfl⟩

theorem Alike.events_eq (h : a.Alike b) (engine : Engine) (e : Execution) :
    a.events engine e = b.events engine e := by
  unfold events
  rw [h.sink]

/-- The runs of a script in alike sessions are the same, and leave these alike. -/
theorem Alike.run (h : a.Alike b) (engine : Engine) (script : String) :
    (a.run engine script).1 = (b.run engine script).1 ∧
      (a.run engine script).2.Alike (b.run engine script).2 := by
  unfold Session.run
  dsimp only
  rw [h.env_eq, h.events_eq]
  exact ⟨rfl, h.after _⟩

theorem Alike.runWithin (h : a.Alike b) (engine : Engine) (limit : Nat) (script : String) :
    (a.runWithin engine limit script).1 = (b.runWithin engine limit script).1 ∧
      (a.runWithin engine limit script).2.Alike (b.runWithin engine limit script).2 := by
  have hrenewed :
      Session.Alike { a with token := a.token.renew } { b with token := b.token.renew } :=
    ⟨h.id, h.store, h.sink, rfl⟩
  unfold Session.runWithin
  dsimp only
  rw [hrenewed.env_eq, hrenewed.events_eq]
  refine ⟨rfl, ?_⟩
  have hafter := hrenewed.after
    (engine.run (Session.env { b with token := b.token.renew } (some limit)) script)
  split
  · exact ⟨hafter.id, hafter.store, hafter.sink, rfl⟩
  · exact hafter

/-- What a run with a limit leaves; it is cancelled only if it was by other means than the limit. -/
theorem runWithin_of_parse (s : Session) (engine : Engine) (limit : Nat) {source : String}
    {invs : List Invocation} (h : parse source = .ok invs) :
    let fresh : Session := { s with token := s.token.renew }
    let run := engine.execute ((fresh.env none).within limit) invs
    let timed := s.runWithin engine limit source
    timed.1.outcome = .ok run ∧ timed.2.store = run.env.store ∧
      timed.2.token.cancelled = (run.env.remaining.isSome && run.env.cancelled) := by
  intro fresh run
  have hrun : engine.execute (fresh.env (some limit)) invs = run := rfl
  unfold Session.runWithin Engine.run
  rw [h]
  dsimp only
  rw [hrun]
  cases hstruck : run.env.remaining with
  | none => simp [Session.after]
  | some left => simp [Session.after]

end Session

/-- A time limit may strike at any moment of a run of the standard commands, since the limit and the
time that passes are arbitrary. Either the results are those of the same run without a limit, and
then so are the variables, or the run is cut off at one of its invocations. The session is not left
cancelled, so its next run is that of a session with a fresh token. -/
theorem runWithin_consistent (policy : Policy) (pace : Pace) (s : Session) (limit : Nat)
    {source : String} {invs : List Invocation} (h : parse source = .ok invs) :
    let engine : Engine := { catalog := .standard, policy, pace }
    let fresh : Session := { s with token := s.token.renew }
    let untimed := fresh.run engine source
    let timed := s.runWithin engine limit source
    (∃ free run, untimed.1.outcome = .ok free ∧ timed.1.outcome = .ok run ∧
      (run.results = free.results ∨ ∃ j, engine.CutAt (fresh.env none) invs run j) ∧
      (run.results = free.results → timed.2.store = untimed.2.store) ∧
      timed.2.store = run.env.store) ∧
    timed.2.token.cancelled = false ∧
    ∀ (next : Engine) (nextLimit : Nat) (script : String),
      let renewed : Session := { timed.2 with token := .first }
      (timed.2.run next script).1 = (renewed.run next script).1 ∧
      (timed.2.run next script).2.Alike (renewed.run next script).2 ∧
      (timed.2.runWithin next nextLimit script).1 = (renewed.runWithin next nextLimit script).1 ∧
      (timed.2.runWithin next nextLimit script).2.Alike
        (renewed.runWithin next nextLimit script).2 := by
  intro engine fresh untimed timed
  have hfree : (fresh.env none).Free := ⟨rfl, rfl⟩
  have hcatalog : engine.catalog.Punctual := punctual_standard
  obtain ⟨hresults, hstore, hstruck⟩ := Engine.limited_execute hcatalog hfree limit invs
  obtain ⟨houtcome, hleft, htoken⟩ := s.runWithin_of_parse engine limit h
  obtain ⟨hout, hsession⟩ := fresh.run_of_parse engine h
  have hreset : timed.2.token.cancelled = false := by
    rw [htoken]
    rcases hstruck with hnone | hlive
    · rw [hnone]
      rfl
    · rw [hlive, Bool.and_false]
  have halike : timed.2.Alike { timed.2 with token := .first } := ⟨rfl, rfl, rfl, hreset⟩
  refine ⟨⟨_, _, hout, houtcome, hresults, ?_, hleft⟩, hreset, ?_⟩
  · intro hsame
    have huntimed : untimed.2.store = _ := congrArg Session.store hsession
    rw [huntimed]
    exact hleft.trans (hstore hsame)
  · intro next nextLimit script renewed
    obtain ⟨hrun, hafter⟩ := halike.run next script
    obtain ⟨hwithin, hlast⟩ := halike.runWithin next nextLimit script
    exact ⟨hrun, hafter, hwithin, hlast⟩

/-- A limit that strikes while the second of three steps waits. -/
theorem runWithin_consistent_asleep :
    let engine : Engine := { catalog := .standard, policy := .proceed }
    let s := Session.start "default" .recorder
    let fresh : Session := { s with token := s.token.renew }
    let source := "Echo a\nSleep 5\nEcho b"
    let invs : List Invocation :=
      [⟨"Echo", [⟨[.literal "a"]⟩], 1, 0⟩, ⟨"Sleep", [⟨[.literal "5"]⟩], 2, 7⟩,
        ⟨"Echo", [⟨[.literal "b"]⟩], 3, 15⟩]
    let timed := s.runWithin engine 2000000 source
    parse source = .ok invs ∧ timed.2.token.cancelled = false ∧
      ∃ run, timed.1.outcome = .ok run ∧ run.statuses = [.pass, .error, .skipped] ∧
        ∃ j, engine.CutAt (fresh.env none) invs run j := by
  intro engine s fresh source invs timed
  have hparse : parse source = .ok invs := by cbv
  obtain ⟨⟨free, run, hfree, hrun, hresults, -, -⟩, htoken, -⟩ :=
    runWithin_consistent .proceed .instant s 2000000 hparse
  have hstatuses : timed.1.outcome.toOption.map Run.statuses = some [.pass, .error, .skipped] := by
    decide +kernel
  have hpasses : (fresh.run engine source).1.outcome.toOption.map Run.statuses =
      some [.pass, .pass, .pass] := by
    decide +kernel
  rw [hrun] at hstatuses
  rw [hfree] at hpasses
  have hcut : run.statuses = [.pass, .error, .skipped] := Option.some.inj hstatuses
  have hpass : free.statuses = [.pass, .pass, .pass] := Option.some.inj hpasses
  refine ⟨hparse, htoken, run, hrun, hcut, hresults.resolve_left fun hsame => ?_⟩
  rw [run.statuses_eq, hsame, ← free.statuses_eq, hpass] at hcut
  exact absurd hcut (by decide)

end Runbook
