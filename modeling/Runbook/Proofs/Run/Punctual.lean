import Runbook.Proofs.Run.Steps

/-!
# Commands under a time limit

A time limit may strike while the body of a command runs or before it starts. A command is punctual
if a limit can do no more to its body than cut it short (`Command.Punctual`): the body leaves the
variables that it leaves without a limit, and if it does not end as it would, it gives up because
the limit has struck. `Env.Limited` relates what a run with a limit finds to what one without finds.

The standard commands are punctual (`punctual_standard`): all but one do not look at the time
(`Command.Timeless`), and the one that waits gives up when the limit strikes.
-/

namespace Runbook

/-! ## Outcomes -/

namespace Outcome

/-- The outcome is not that of a step which was skipped, refused or cut short. -/
structure Genuine (outcome : Outcome) : Prop where
  ne_cancelled : outcome ≠ .error "cancelled"
  ne_skipped : outcome.status ≠ .skipped

theorem head?_append_any {start : String} {p : Char → Bool} (h : start.toList.head?.any p = true)
    (rest : String) : (start ++ rest).toList.head?.any p = true := by
  rw [String.toList_append]
  cases hs : start.toList with
  | nil => simp [hs] at h
  | cons c cs => simpa [hs] using h

/-- An error with a wording that begins otherwise is not that of a cancelled step. -/
theorem genuine_error {message : String}
    (h : message.toList.head?.any (· ≠ 'c') = true) : (Outcome.error message).Genuine := by
  refine ⟨fun heq => ?_, nofun⟩
  obtain rfl : message = "cancelled" := by simpa [Outcome.error] using heq
  exact absurd h (by decide)

theorem genuine_unknown (name : String) : (Outcome.error s!"unknown function `{name}`").Genuine :=
  genuine_error (head?_append_any (head?_append_any (by decide) _) _)

theorem genuine_short (least given : Nat) :
    (Outcome.error s!"expects at least {least} argument(s), got {given}").Genuine :=
  genuine_error (head?_append_any (head?_append_any (head?_append_any (by decide) _) _) _)

theorem genuine_pass : Outcome.pass.Genuine := ⟨nofun, nofun⟩

theorem genuine_fail (message : String) : (Outcome.fail message).Genuine := ⟨nofun, nofun⟩

theorem genuine_ite {p : Prop} [Decidable p] {a b : Outcome} (ha : a.Genuine) (hb : b.Genuine) :
    (if p then a else b).Genuine := by
  split
  · exact ha
  · exact hb

end Outcome

/-! ## Surroundings -/

namespace Env

/-- The run is not cancelled, and no time limit is to cancel it. -/
structure Free (env : Env) : Prop where
  live : env.cancelled = false
  unlimited : env.remaining = none

/-- The same surroundings with a time limit that is still to strike. -/
def within (env : Env) (left : Nat) : Env := { env with remaining := some left }

/-- The same surroundings after a time limit has struck. -/
def struck (env : Env) : Env := { env with cancelled := true }

/-- What a run with a time limit finds where one without a limit finds `env`. -/
inductive Limited (env : Env) : Env → Prop where
  | pending (left : Nat) : Limited env (env.within left)
  | struck : Limited env env.struck

variable {env timed : Env}

theorem limited_elapse (hfree : env.Free) (h : env.Limited timed) (n : Nat) :
    env.Limited (timed.elapse n) := by
  cases h with
  | struck =>
    have hlimit : env.struck.remaining = none := hfree.unlimited
    rw [elapse_of_unlimited hlimit]
    exact .struck
  | pending left =>
    unfold elapse
    by_cases hstrike : left ≤ n
    · have heq : env.struck = { env.within left with cancelled := true, remaining := none } := by
        simp [Env.struck, within, hfree.unlimited]
      simp only [within, hstrike, if_true]
      exact heq ▸ .struck
    · simp only [within, hstrike, if_false]
      exact .pending (left - n)

theorem Limited.store_eq (h : env.Limited timed) : timed.store = env.store := by
  cases h <;> rfl

theorem Limited.setStore (h : env.Limited timed) (store : Store) :
    Limited { env with store } { timed with store } := by
  cases h with
  | pending left => exact .pending left
  | struck => exact .struck

/-- Where the run is not cancelled, the limit is still to strike. -/
theorem Limited.eq_within (h : env.Limited timed) (hlive : timed.cancelled = false) :
    ∃ left, timed = env.within left := by
  cases h with
  | pending left => exact ⟨left, rfl⟩
  | struck => simp [Env.struck] at hlive

/-- Where the run is cancelled, the limit has struck. -/
theorem Limited.eq_struck (hfree : env.Free) (h : env.Limited timed)
    (hcancelled : timed.cancelled = true) : timed = env.struck := by
  cases h with
  | pending left => simp [within, hfree.live] at hcancelled
  | struck => rfl

theorem Limited.struck_or_live (h : env.Limited timed) (hfree : env.Free) :
    timed.remaining = none ∨ timed.cancelled = false := by
  cases h with
  | pending left => exact .inr hfree.live
  | struck => exact .inl hfree.unlimited

end Env

/-! ## Commands -/

/-- A time limit can do no more to the body than cut it short. Without a limit the body finishes;
with one it leaves the same variables, and if it does not end in the same way, it gives up because
the limit has struck. -/
structure Command.Punctual (command : Command) : Prop where
  finishes : ∀ env : Env, env.Free →
    ∃ outcome, (command.body env).ending = .finished outcome ∧ outcome.Genuine
  live : ∀ env : Env, env.Free → (command.body env).cancelled = false
  limited : ∀ env timed : Env, env.Free → env.Limited timed →
    ((command.body env).env env).Limited ((command.body timed).env timed)
  cut : ∀ env timed : Env, env.Free → env.Limited timed →
    (command.body timed).ending = (command.body env).ending ∨
      (command.body timed).ending = .cancelled ∧ (command.body timed).cancelled = true

/-- All commands of the catalog are punctual. -/
def Catalog.Punctual (catalog : Catalog) : Prop :=
  ∀ command ∈ catalog.commands, command.Punctual

/-- The body does not look at the time, and lets none pass. -/
def Command.Timeless (command : Command) : Prop :=
  ∀ (env : Env) (cancelled : Bool) (remaining : Option Nat),
    command.body { env with cancelled, remaining } = { command.body env with cancelled, remaining }

theorem Effect.free_env {env : Env} {effect : Effect} (hfree : env.Free)
    (hlive : effect.cancelled = false) : (effect.env env).Free := by
  refine ⟨hlive, ?_⟩
  simp [Effect.env, hfree.unlimited]

namespace Command

variable {command : Command}

theorem punctual_of_timeless (h : command.Timeless)
    (hfinishes : ∀ env : Env, ∃ outcome,
      (command.body env).ending = .finished outcome ∧ outcome.Genuine) : command.Punctual := by
  have hlive : ∀ env : Env, (command.body env).cancelled = env.cancelled := fun env =>
    congrArg Effect.cancelled (h env env.cancelled env.remaining)
  have hpending : ∀ (env : Env) (left : Nat),
      command.body (env.within left) = { command.body env with
        cancelled := env.cancelled, remaining := some left } :=
    fun env left => h env env.cancelled (some left)
  have hstruck : ∀ env : Env, command.body env.struck = { command.body env with
      cancelled := true, remaining := env.remaining } :=
    fun env => h env true env.remaining
  refine ⟨fun env _ => hfinishes env, fun env hfree => (hlive env).trans hfree.live, ?_, ?_⟩
  · rintro env timed hfree (left | _)
    · have heq : (command.body (env.within left)).env (env.within left) =
          ((command.body env).env env).within left := by
        rw [hpending]
        simp [Effect.env, Env.within, hlive]
      exact heq ▸ .pending left
    · have heq : (command.body env.struck).env env.struck =
          ((command.body env).env env).struck := by
        rw [hstruck]
        simp [Effect.env, Env.struck, hfree.unlimited]
      exact heq ▸ .struck
  · rintro env timed - (left | _)
    · exact .inl (by rw [hpending])
    · exact .inl (by rw [hstruck])

/-! ## The standard commands -/

theorem punctual_updateStatus : updateStatus.Punctual :=
  punctual_of_timeless (fun _ _ _ => rfl) fun _ => ⟨_, rfl, Outcome.genuine_pass⟩

theorem body_set_of_empty {env : Env} (h : env.argument 0 "" = "") :
    set.body env = env.finish (.error "variable name is empty") :=
  if_pos h

theorem body_set_of_ne {env : Env} (h : env.argument 0 "" ≠ "") :
    set.body env = ({ env with
      store := env.store.set (env.argument 0 "") (.text (env.argument 1 "")) } : Env).finish .pass :=
  if_neg h

theorem timeless_set : set.Timeless := by
  intro env cancelled remaining
  by_cases hempty : env.argument 0 "" = ""
  · rw [body_set_of_empty hempty, body_set_of_empty (by exact hempty)]
    rfl
  · rw [body_set_of_ne hempty, body_set_of_ne (by exact hempty)]
    rfl

theorem punctual_set : set.Punctual := by
  refine punctual_of_timeless timeless_set fun env => ?_
  by_cases hempty : env.argument 0 "" = ""
  · have hgenuine : (Outcome.error "variable name is empty").Genuine :=
      Outcome.genuine_error (by decide)
    exact ⟨_, congrArg Effect.ending (body_set_of_empty hempty), hgenuine⟩
  · exact ⟨_, congrArg Effect.ending (body_set_of_ne hempty), Outcome.genuine_pass⟩

theorem punctual_unset : unset.Punctual :=
  punctual_of_timeless (fun _ _ _ => rfl) fun env =>
    ⟨if (env.store.unset (env.argument 0 "")).1 then .pass
      else .fail (notSetMessage (env.argument 0 "")), rfl,
      Outcome.genuine_ite Outcome.genuine_pass (Outcome.genuine_fail _)⟩

theorem punctual_echo : echo.Punctual :=
  punctual_of_timeless (fun _ _ _ => rfl) fun _ => ⟨_, rfl, nofun, nofun⟩

theorem punctual_assertEqual : assertEqual.Punctual :=
  punctual_of_timeless (fun _ _ _ => rfl) fun _ =>
    ⟨_, rfl, Outcome.genuine_ite Outcome.genuine_pass (Outcome.genuine_fail _)⟩

theorem punctual_assertSet : assertSet.Punctual :=
  punctual_of_timeless (fun _ _ _ => rfl) fun _ =>
    ⟨_, rfl, Outcome.genuine_ite Outcome.genuine_pass (Outcome.genuine_fail _)⟩

theorem punctual_fail : fail.Punctual :=
  punctual_of_timeless (fun _ _ _ => rfl) fun _ => ⟨_, rfl, Outcome.genuine_fail _⟩

end Command

namespace Env

variable {env timed : Env}

theorem env_finish (env : Env) (outcome : Outcome) : (env.finish outcome).env env = env := by
  obtain ⟨session, store, cancelled, remaining⟩ := env
  cases remaining <;> rfl

theorem wait_of_free (hfree : env.Free) (n : Nat) :
    env.wait n = { env.finish .pass with output := [.wait n] } := by
  unfold wait
  simp [hfree.live, hfree.unlimited, elapse_of_unlimited, finish]

/-- A wait takes the time that it takes, or it is cut short. -/
theorem limited_wait (hfree : env.Free) (h : env.Limited timed) (n : Nat) :
    env.Limited ((timed.wait n).env timed) ∧
      ((timed.wait n).ending = .finished .pass ∨
        (timed.wait n).ending = .cancelled ∧ (timed.wait n).cancelled = true) := by
  cases h with
  | struck =>
    have hwait : env.struck.wait n = env.struck.ending .cancelled := if_pos rfl
    have henv : (env.struck.wait n).env env.struck = env.struck := by
      rw [hwait]
      simp [Effect.env, ending, Env.struck, hfree.unlimited]
    rw [henv, hwait]
    exact ⟨.struck, .inr ⟨rfl, rfl⟩⟩
  | pending left =>
    have hafter : env.Limited (if n = 0 then env.within left else (env.within left).elapse n) := by
      split
      · exact .pending left
      · exact limited_elapse hfree (.pending left) n
    have hlive : ¬ (env.within left).cancelled = true := by simp [within, hfree.live]
    unfold wait
    rw [if_neg hlive]
    generalize (if n = 0 then env.within left else (env.within left).elapse n) = after at hafter
    cases hafter with
    | pending left =>
      have hnot : ¬ (env.within left).cancelled = true := by simp [within, hfree.live]
      dsimp only
      rw [if_neg hnot]
      exact ⟨.pending left, .inl rfl⟩
    | struck =>
      dsimp only
      rw [if_pos (show env.struck.cancelled = true from rfl)]
      exact ⟨.struck, .inr ⟨rfl, rfl⟩⟩

end Env

namespace Command

/-- The body waits or refuses to, according to the variables. -/
theorem body_sleep (store : Store) :
    (∃ outcome : Outcome, outcome.Genuine ∧
      ∀ env : Env, env.store = store → sleep.body env = env.finish outcome) ∨
    ∃ n, ∀ env : Env, env.store = store → sleep.body env = env.wait n := by
  let raw := store.readText (argumentName 0) ""
  cases hread : (store.get? (argumentName 0)).bind Value.toNat? with
  | none =>
    refine .inl ⟨.error s!"invalid duration `{raw}`", ?_, ?_⟩
    · exact Outcome.genuine_error
        (Outcome.head?_append_any (Outcome.head?_append_any (by decide) _) _)
    · rintro env rfl
      unfold sleep
      simp only [hread]
      rfl
  | some milliseconds =>
    refine .inr ⟨milliseconds * 1000000, ?_⟩
    rintro env rfl
    unfold sleep
    simp only [hread]

theorem punctual_sleep : sleep.Punctual := by
  constructor
  · intro env hfree
    rcases body_sleep env.store with ⟨outcome, hgenuine, hbody⟩ | ⟨n, hbody⟩
    · exact ⟨outcome, by rw [hbody env rfl]; rfl, hgenuine⟩
    · exact ⟨.pass, by rw [hbody env rfl, Env.wait_of_free hfree]; rfl, Outcome.genuine_pass⟩
  · intro env hfree
    rcases body_sleep env.store with ⟨outcome, -, hbody⟩ | ⟨n, hbody⟩
    · rw [hbody env rfl]
      exact hfree.live
    · rw [hbody env rfl, Env.wait_of_free hfree]
      exact hfree.live
  · intro env timed hfree h
    rcases body_sleep env.store with ⟨outcome, -, hbody⟩ | ⟨n, hbody⟩
    · rw [hbody env rfl, hbody timed h.store_eq, Env.env_finish, Env.env_finish]
      exact h
    · rw [hbody env rfl, hbody timed h.store_eq, Env.wait_of_free hfree]
      have henv := Env.env_finish env .pass
      exact henv.symm ▸ (Env.limited_wait hfree h n).1
  · intro env timed hfree h
    rcases body_sleep env.store with ⟨outcome, -, hbody⟩ | ⟨n, hbody⟩
    · exact .inl (by rw [hbody env rfl, hbody timed h.store_eq]; rfl)
    · rw [hbody env rfl, hbody timed h.store_eq, Env.wait_of_free hfree]
      exact (Env.limited_wait hfree h n).2

end Command

theorem punctual_standard : Catalog.standard.Punctual := by
  intro command hcommand
  have hcases : command ∈ Command.standard := hcommand
  simp only [Command.standard, List.mem_cons, List.not_mem_nil, or_false] at hcases
  rcases hcases with rfl | rfl | rfl | rfl | rfl | rfl | rfl | rfl
  · exact Command.punctual_updateStatus
  · exact Command.punctual_set
  · exact Command.punctual_unset
  · exact Command.punctual_echo
  · exact Command.punctual_assertEqual
  · exact Command.punctual_assertSet
  · exact Command.punctual_fail
  · exact Command.punctual_sleep

end Runbook
