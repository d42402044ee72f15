import Runbook.Proofs.Run.Arguments
import Runbook.Run.Event

/-!
# The standard commands without argument variables

Commands and users share one store: arguments, their number, the reported status, the last line and
the variables of the user are all kept under names in it. This file says what the standard commands
do to a listing of variables that holds no arguments at all: `Verb.perform` is given the texts of
the arguments and changes the listing, and `Plain.run` is the fold of these steps over a script.

A run of the engine cannot be told from that fold (`execute_is_plain`): the outcomes, the reported
texts and the unreserved variables with their order are the same, as long as the script names no
reserved variable. The simulation (`Progress.Simulates`) is kept by every step (`simulates_step`),
since binding does not show in the unreserved variables and a body reads its arguments as the texts
that they were (`perform_body`).
-/

namespace Runbook

/-! ## Scripts on a listing -/

/-- The standard commands, save the one that waits. -/
inductive Verb where
  | updateStatus
  | set
  | unset
  | echo
  | assertEqual
  | assertSet
  | fail
deriving DecidableEq, Repr

/-- What a plain step did. -/
structure Plain where
  outcome : Outcome
  /-- The texts that it reported. -/
  reports : List String
  /-- The variable that it was told to set, to take away or to check. -/
  target : Option String

namespace Verb

/-- The name under which the catalog has the verb. -/
def name : Verb → String
  | updateStatus => "UpdateStatus"
  | set => "Set"
  | unset => "Unset"
  | echo => "Echo"
  | assertEqual => "AssertEqual"
  | assertSet => "AssertSet"
  | fail => "Fail"

/-- The fewest arguments with which the verb is performed. -/
def least : Verb → Nat
  | set | assertEqual => 2
  | unset | assertSet => 1
  | updateStatus | echo | fail => 0

/-- What the verb does with the texts of its arguments to the variables. -/
def perform (vars : Listing) (args : List String) : Verb → Plain × Listing
  | updateStatus =>
    let text := args[0]?.getD "Enter a status message"
    (⟨.pass, [text], none⟩, Listing.put "Status" (.text text) vars)
  | set =>
    let name := args[0]?.getD ""
    if name = "" then (⟨.error "variable name is empty", [], some name⟩, vars)
    else (⟨.pass, [], some name⟩, Listing.put name (.text (args[1]?.getD "")) vars)
  | unset =>
    let name := args[0]?.getD ""
    if name ∈ vars.map (·.1) then (⟨.pass, [], some name⟩, Listing.remove name vars)
    else (⟨.fail s!"variable `{name}` is not set", [], some name⟩, vars)
  | echo =>
    let line := " ".intercalate args
    (⟨⟨.pass, some line⟩, [], none⟩, Listing.put "LastEcho" (.text line) vars)
  | assertEqual =>
    let actual := args[0]?.getD ""
    let expected := args[1]?.getD ""
    if actual = expected then (⟨.pass, [], none⟩, vars)
    else (⟨.fail s!"expected `{expected}`, got `{actual}`", [], none⟩, vars)
  | assertSet =>
    let name := args[0]?.getD ""
    if name ∈ vars.map (·.1) then (⟨.pass, [], some name⟩, vars)
    else (⟨.fail s!"variable `{name}` is not set", [], some name⟩, vars)
  | fail => (⟨.fail (args[0]?.getD "failed"), [], none⟩, vars)

/-- The verb of a name. -/
def ofName? (name : String) : Option Verb :=
  [updateStatus, set, unset, echo, assertEqual, assertSet, fail].find? (·.name = name)

theorem ofName?_name (verb : Verb) : ofName? verb.name = some verb := by
  cases verb <;> decide

end Verb

theorem Verb.name_of_ofName? {name : String} {verb : Verb} (h : Verb.ofName? name = some verb) :
    verb.name = name := by
  unfold Verb.ofName? at h
  simpa using List.find?_some h

namespace Plain

/-- One step: the parts of the arguments are replaced from the variables, and the verb is performed
if it has arguments enough. -/
def step (vars : Listing) (inv : Invocation) : Plain × Listing :=
  let args := inv.texts fun name => (vars.lookup name).map Value.toText
  match Verb.ofName? inv.name with
  | none => (⟨.error s!"unknown function `{inv.name}`", [], none⟩, vars)
  | some verb =>
    if args.length < verb.least then
      (⟨.error s!"expects at least {verb.least} argument(s), got {args.length}", [], none⟩, vars)
    else verb.perform vars args

/-- The steps of a script, one after the other. -/
def run (vars : Listing) : List Invocation → List Plain × Listing
  | [] => ([], vars)
  | inv :: invs =>
    let (did, next) := step vars inv
    let (others, last) := run next invs
    (did :: others, last)

end Plain

/-- The part is not the value of a reserved variable. -/
def Part.SparesReserved : Part → Prop
  | .literal _ => True
  | .variable name => ¬ Reserved name

instance : DecidablePred Part.SparesReserved
  | .literal _ => inferInstanceAs (Decidable True)
  | .variable name => inferInstanceAs (Decidable (¬ Reserved name))

/-- The invocation uses no reserved variable in its arguments. -/
def Invocation.SparesReserved (inv : Invocation) : Prop :=
  ∀ a ∈ inv.arguments, ∀ part ∈ a.parts, part.SparesReserved

instance (inv : Invocation) : Decidable inv.SparesReserved :=
  inferInstanceAs (Decidable (∀ a ∈ inv.arguments, ∀ part ∈ a.parts, part.SparesReserved))

/-! ## Bodies -/

namespace Verb

/-- The command that the verb stands for. -/
def command : Verb → Command
  | updateStatus => Command.updateStatus
  | set => Command.set
  | unset => Command.unset
  | echo => Command.echo
  | assertEqual => Command.assertEqual
  | assertSet => Command.assertSet
  | fail => Command.fail

theorem find?_standard (verb : Verb) : Catalog.standard.find? verb.name = some verb.command := by
  cases verb <;> rfl

theorem minArguments_command (verb : Verb) : verb.command.minArguments = verb.least := by
  cases verb <;> rfl

theorem name_command (verb : Verb) : verb.command.name = verb.name := by
  cases verb <;> rfl

theorem mem_standard {command : Command} (h : command ∈ Catalog.standard.commands) :
    command = Command.sleep ∨ ∃ verb : Verb, command = verb.command := by
  have hcases : command ∈ Command.standard := h
  simp only [Command.standard, List.mem_cons, List.not_mem_nil, or_false] at hcases
  rcases hcases with rfl | rfl | rfl | rfl | rfl | rfl | rfl | rfl
  · exact .inr ⟨updateStatus, rfl⟩
  · exact .inr ⟨set, rfl⟩
  · exact .inr ⟨unset, rfl⟩
  · exact .inr ⟨echo, rfl⟩
  · exact .inr ⟨assertEqual, rfl⟩
  · exact .inr ⟨assertSet, rfl⟩
  · exact .inr ⟨fail, rfl⟩
  · exact .inl rfl

theorem find?_standard_of_none {name : String} (h : ofName? name = none) (hwait : name ≠ "Sleep") :
    Catalog.standard.find? name = none := by
  refine List.find?_eq_none.2 fun command hcommand => ?_
  rcases mem_standard hcommand with rfl | ⟨verb, rfl⟩
  · exact fun heq => hwait (of_decide_eq_true heq).symm
  · have hverb : verb.name ≠ name := by
      intro hname
      rw [← hname, ofName?_name] at h
      nomatch h
    simpa [name_command] using hverb

/-- The effect of a body on what it found is that of a plain step, and it leaves the reserved
variables and the run alone. -/
structure Performs (effect : Effect) (env : Env) (did : Plain × Listing) : Prop where
  ending : effect.ending = .finished did.1.outcome
  reports : ∀ r : Record, r.conduct.output = effect.output → r.reports = did.1.reports
  vars : effect.store.unreserved = did.2
  reserved : ∀ name, Reserved name → effect.store.get? name = env.store.get? name
  cancelled : effect.cancelled = env.cancelled

theorem get?_set_of_reserved {name other : String} (h : ¬ Reserved name) (hother : Reserved other)
    (s : Store) (value : Value) : (s.set name value).get? other = s.get? other :=
  s.get?_set_ne value fun heq => h (heq ▸ hother)

theorem contains_unreserved {name : String} (h : ¬ Reserved name) (s : Store) :
    s.contains name = true ↔ name ∈ s.unreserved.map (·.1) := by
  rw [s.contains_iff_mem]
  exact (Listing.mem_names_unreserved h s.toList).symm

theorem performs_finish (env : Env) (outcome : Outcome) (target : Option String) :
    Performs (env.finish outcome) env (⟨outcome, [], target⟩, env.store.unreserved) :=
  ⟨rfl, fun r h => by simp [Record.reports, h, Env.finish, Env.ending], rfl, fun _ _ => rfl, rfl⟩

theorem performs_set {name : String} (hname : ¬ Reserved name) (env : Env) (value : Value)
    (outcome : Outcome) {output : List Output} {reports : List String} (target : Option String)
    (hreports : ∀ r : Record, r.conduct.output = output → r.reports = reports) :
    Performs
      { ({ env with store := env.store.set name value } : Env).finish outcome with output } env
      (⟨outcome, reports, target⟩, Listing.put name value env.store.unreserved) := by
  refine ⟨rfl, hreports, Store.unreserved_set _ hname _, fun other hother => ?_, rfl⟩
  exact get?_set_of_reserved hname hother _ _

theorem performs_unset {name : String} (hname : ¬ Reserved name) (env : Env) (outcome : Outcome)
    (target : Option String) :
    Performs (({ env with store := env.store.erase name } : Env).finish outcome) env
      (⟨outcome, [], target⟩, Listing.remove name env.store.unreserved) := by
  refine ⟨rfl, fun r h => ?_, env.store.unreserved_erase name, fun other hother => ?_, rfl⟩
  · simp [Record.reports, h, Env.finish, Env.ending]
  · exact env.store.get?_erase_ne fun heq => hname (heq ▸ hother)

/-- A body that reads these texts for its arguments does what the verb does with them. -/
theorem perform_body (verb : Verb) {env : Env} {vars : Listing} {args : List String}
    (hvars : env.store.unreserved = vars)
    (hargs : ∀ i default, env.argument i default = args[i]?.getD default)
    (hall : env.arguments = args)
    (htarget : ∀ name ∈ (verb.perform vars args).1.target, ¬ Reserved name) :
    Performs (verb.command.body env) env (verb.perform vars args) := by
  obtain rfl := hvars
  have hstatus : ¬ Reserved Command.statusName := by decide
  have hecho : ¬ Reserved Command.lastEchoName := by decide
  cases verb with
  | updateStatus =>
    simp only [command, Command.updateStatus, perform, hargs]
    exact performs_set hstatus env _ _ _ fun r h => by
      simp [Record.reports, h, Command.statusPrompt]
  | set =>
    simp only [command, Command.set, perform, hargs] at htarget ⊢
    by_cases hempty : args[0]?.getD "" = ""
    · simp only [hempty, if_true]
      exact performs_finish env _ _
    · simp only [hempty, if_false] at htarget ⊢
      exact performs_set (htarget _ rfl) env _ _ _ fun r h => by simp [Record.reports, h]
  | unset =>
    simp only [command, Command.unset, perform, hargs] at htarget ⊢
    have hname : ¬ Reserved (args[0]?.getD "") := by
      split at htarget
      · exact htarget _ rfl
      · exact htarget _ rfl
    have hfound : (env.store.unset (args[0]?.getD "")).1 =
        decide (args[0]?.getD "" ∈ env.store.unreserved.map (·.1)) := by
      rw [(env.store.unset_eq _).1]
      exact decide_eq_decide.2 (Listing.mem_names_unreserved hname env.store.toList).symm
    rw [hfound]
    by_cases hmem : args[0]?.getD "" ∈ env.store.unreserved.map (·.1)
    · rw [if_pos hmem, if_pos (decide_eq_true hmem)]
      exact performs_unset hname env _ _
    · rw [if_neg hmem, if_neg (by simp [hmem]), ← Listing.remove_of_not_mem hmem]
      exact performs_unset hname env _ _
  | echo =>
    simp only [command, Command.echo, perform, hall]
    exact performs_set hecho env _ _ _ fun r h => by simp [Record.reports, h]
  | assertEqual =>
    simp only [command, Command.assertEqual, perform, hargs]
    by_cases heq : args[0]?.getD "" = args[1]?.getD ""
    · simp only [heq, if_true]
      exact performs_finish env _ _
    · simp only [heq, if_false]
      exact performs_finish env _ _
  | assertSet =>
    simp only [command, Command.assertSet, perform, hargs] at htarget ⊢
    have hname : ¬ Reserved (args[0]?.getD "") := by
      split at htarget
      · exact htarget _ rfl
      · exact htarget _ rfl
    have hmem := contains_unreserved hname env.store
    by_cases hc : env.store.contains (args[0]?.getD "") = true
    · rw [if_pos hc, if_pos (hmem.1 hc)]
      exact performs_finish env _ _
    · rw [if_neg hc, if_neg fun hm => hc (hmem.2 hm)]
      exact performs_finish env _ _
  | fail =>
    simp only [command, Command.fail, perform, hargs]
    exact performs_finish env _ _

end Verb

/-! ## Runs -/

/-- Arguments that use no reserved variable have the same texts without these. -/
theorem Invocation.SparesReserved.texts_eq {inv : Invocation} (h : inv.SparesReserved) (s : Store) :
    (inv.texts fun name => (s.unreserved.lookup name).map Value.toText) = inv.texts s.text? := by
  refine List.map_congr_left fun a ha => ?_
  refine congrArg String.join (List.map_congr_left fun part hpart => ?_)
  cases part with
  | literal text => rfl
  | «variable» name =>
    have hname := s.get?_unreserved (h a ha _ hpart)
    simp only [Part.resolve, Store.text?, hname]

/-- Apart from its arguments the store of the run is that of a plain run, and nothing keeps the run
from going on. -/
structure Progress.Simulates (p : Progress) (vars : Listing) : Prop where
  holds : p.env.store.HoldsArguments p.bound
  going : p.stopped = false
  live : p.env.cancelled = false
  unlimited : p.env.remaining = none
  vars : p.env.store.unreserved = vars

namespace Engine

variable {engine : Engine} {p : Progress} {vars : Listing} {inv : Invocation}

/-- An attempt does what a plain step does. -/
theorem simulates_attempt (hcatalog : engine.catalog = .standard) (h : p.Simulates vars)
    (hwait : inv.name ≠ "Sleep") (hspares : inv.SparesReserved)
    (htarget : ∀ name ∈ (Plain.step vars inv).1.target, ¬ Reserved name) :
    (engine.attempt p inv).1.outcome inv = (Plain.step vars inv).1.outcome ∧
    (∀ description stops, (Record.mk inv description (engine.attempt p inv).1 stops).reports =
      (Plain.step vars inv).1.reports) ∧
    Progress.Simulates ⟨(engine.attempt p inv).2.1, (engine.attempt p inv).2.2, false, p.taken + 1⟩
      (Plain.step vars inv).2 := by
  obtain rfl := h.vars
  have hrefused : Progress.Simulates ⟨p.env, p.bound, false, p.taken + 1⟩ p.env.store.unreserved :=
    ⟨h.holds, rfl, h.live, h.unlimited, rfl⟩
  unfold Plain.step at htarget ⊢
  rw [hspares.texts_eq] at htarget ⊢
  rw [attempt, hcatalog]
  cases hverb : Verb.ofName? inv.name with
  | none =>
    simp only [Verb.find?_standard_of_none hverb hwait]
    exact ⟨rfl, fun _ _ => rfl, hrefused⟩
  | some verb =>
    have hname := Verb.name_of_ofName? hverb
    have hfind : Catalog.standard.find? inv.name = some verb.command := by
      rw [← hname, verb.find?_standard]
    simp only [hverb, inv.length_texts] at htarget ⊢
    simp only [hfind, verb.minArguments_command]
    by_cases hshort : inv.arguments.length < verb.least
    · simp only [hshort, if_true]
      refine ⟨?_, fun _ _ => rfl, hrefused⟩
      simp only [Conduct.outcome, verb.minArguments_command]
    · simp only [hshort, if_false] at htarget ⊢
      -- What the body finds: the arguments are there, and the unreserved variables are as before.
      let found : Env := { p.env with store := p.env.store.bind p.bound inv }
      have hlimit : found.remaining = none := h.unlimited
      have hvars : found.store.unreserved = p.env.store.unreserved :=
        p.env.store.unreserved_bind p.bound inv
      have hbody := verb.perform_body hvars (Env.argument_bound rfl h.holds)
        (Env.arguments_bound rfl) htarget
      rw [Env.elapse_of_unlimited hlimit]
      refine ⟨?_, fun _ _ => hbody.reports _ rfl, ?_, rfl, ?_, ?_, hbody.vars⟩
      · simp only [Conduct.outcome, hbody.ending, Ending.outcome]
      · refine (Store.holdsArguments_bind h.holds inv).congr fun i => ?_
        exact hbody.reserved _ (reserved_argumentName i)
      · exact hbody.cancelled.trans h.live
      · simp [Effect.env, found, h.unlimited]

/-- A step does what a plain step does. -/
theorem simulates_step (hcatalog : engine.catalog = .standard) (hpolicy : engine.policy = .proceed)
    (h : p.Simulates vars) (hwait : inv.name ≠ "Sleep") (hspares : inv.SparesReserved)
    (htarget : ∀ name ∈ (Plain.step vars inv).1.target, ¬ Reserved name) :
    (engine.step p inv).1.outcome = (Plain.step vars inv).1.outcome ∧
    (engine.step p inv).1.reports = (Plain.step vars inv).1.reports ∧
    (engine.step p inv).2.Simulates (Plain.step vars inv).2 := by
  have harrival : engine.arrival p = p.env := Env.elapse_of_unlimited h.unlimited _
  have hlive : (engine.arrival p).cancelled = false := by rw [harrival, h.live]
  obtain ⟨houtcome, hreports, hafter⟩ := simulates_attempt hcatalog h hwait hspares htarget
  rw [engine.step_of_going h.going hlive, harrival]
  refine ⟨houtcome, hreports _ _, ?_⟩
  have hleave := Env.elapse_of_unlimited hafter.unlimited (engine.pace.leaving p.taken)
  have hcancelled : (engine.attempt p inv).2.1.cancelled = false := hafter.live
  unfold settle
  dsimp only at hleave ⊢
  rw [hleave]
  exact ⟨hafter.holds, by simp [hcancelled, hpolicy], hafter.live, hafter.unlimited, hafter.vars⟩

/-- Steps do what the steps of a plain run do. -/
theorem simulates_steps (hcatalog : engine.catalog = .standard) (hpolicy : engine.policy = .proceed)
    (h : p.Simulates vars) {invs : List Invocation} (hwait : ∀ inv ∈ invs, inv.name ≠ "Sleep")
    (hspares : ∀ inv ∈ invs, inv.SparesReserved)
    (htarget : ∀ did ∈ (Plain.run vars invs).1, ∀ name ∈ did.target, ¬ Reserved name) :
    (engine.steps p invs).1.map Record.outcome = (Plain.run vars invs).1.map (·.outcome) ∧
    (engine.steps p invs).1.flatMap Record.reports = (Plain.run vars invs).1.flatMap (·.reports) ∧
    (engine.steps p invs).2.Simulates (Plain.run vars invs).2 := by
  induction invs generalizing p vars with
  | nil => exact ⟨rfl, rfl, h⟩
  | cons inv invs ih =>
    obtain ⟨hwait, hwaits⟩ := List.forall_mem_cons.1 hwait
    obtain ⟨hspares, hothers⟩ := List.forall_mem_cons.1 hspares
    simp only [Plain.run] at htarget ⊢
    obtain ⟨htarget, htargets⟩ := List.forall_mem_cons.1 htarget
    obtain ⟨houtcome, hreports, hafter⟩ :=
      simulates_step hcatalog hpolicy h hwait hspares htarget
    obtain ⟨houtcomes, hall, hlast⟩ := ih hafter hwaits hothers htargets
    rw [steps_cons]
    simp only [List.map_cons, List.flatMap_cons, houtcome, hreports, houtcomes, hall]
    exact ⟨trivial, trivial, hlast⟩

end Engine

theorem Progress.simulates_start {env : Env} (h : env.store.Accounted)
    (hlive : env.cancelled = false) (hlimit : env.remaining = none) :
    (Progress.start env).Simulates env.store.unreserved :=
  ⟨h, rfl, hlive, hlimit, rfl⟩

/-- That arguments are variables cannot be told from a run of the standard commands: its outcomes,
the texts that it reports and the variables that it leaves, in their order, are those of a plain
run, which knows no variables for arguments. The run starts from a store that holds as many
arguments as it says and is not cancelled; no step waits, and none uses, sets, takes away or checks
a reserved variable. -/
theorem execute_is_plain (pace : Pace) (env : Env) (invs : List Invocation)
    (hstore : env.store.Accounted) (hlive : env.cancelled = false) (hlimit : env.remaining = none)
    (hwait : ∀ inv ∈ invs, inv.name ≠ "Sleep") (hspares : ∀ inv ∈ invs, inv.SparesReserved)
    (htarget : ∀ did ∈ (Plain.run env.store.unreserved invs).1, ∀ name ∈ did.target,
      ¬ Reserved name) :
    let run := Engine.execute { catalog := .standard, policy := .proceed, pace } env invs
    let plain := Plain.run env.store.unreserved invs
    run.results.map (·.outcome) = plain.1.map (·.outcome) ∧
      run.reports = plain.1.flatMap (·.reports) ∧
      run.env.store.unreserved = plain.2 ∧ run.state = .completed := by
  intro run plain
  let engine : Engine := { catalog := .standard, policy := .proceed, pace }
  have hstart := Progress.simulates_start hstore hlive hlimit
  obtain ⟨houtcomes, hreports, hlast⟩ :=
    engine.simulates_steps rfl rfl hstart hwait hspares htarget
  refine ⟨?_, hreports, ?_, ?_⟩
  · show ((engine.steps (.start env) invs).1.map Record.result).map _ = _
    rw [List.map_map]
    exact houtcomes
  · rw [← hlast.vars]
    exact congrArg Store.unreserved (engine.store_execute env invs)
  · exact if_neg (by simp [run, Engine.execute, engine, hlast.going])

/-- Steps with several arguments, with none and with too few, one without a command, and one that
misses its variable, on a store in which an earlier step has left three arguments. -/
theorem execute_is_plain_mixed :
    let earlier : Invocation :=
      ⟨"Echo", [⟨[.literal "a"]⟩, ⟨[.literal "b"]⟩, ⟨[.literal "c"]⟩], 1, 0⟩
    let env : Env := ⟨"", ((∅ : Store).set "user" (.text "Ada")).bind 0 earlier, false, none⟩
    let invs : List Invocation :=
      [⟨"UpdateStatus", [], 1, 0⟩,
        ⟨"Set", [⟨[.literal "color"]⟩, ⟨[.variable "user"]⟩], 2, 13⟩,
        ⟨"Echo", [⟨[.variable "color"]⟩, ⟨[.literal "likes"]⟩, ⟨[.literal "blue"]⟩], 3, 29⟩,
        ⟨"Fail", [], 4, 52⟩, ⟨"Set", [⟨[.literal "color"]⟩], 5, 57⟩,
        ⟨"Lost", [⟨[.literal "x"]⟩], 6, 67⟩, ⟨"Unset", [⟨[.literal "color"]⟩], 7, 74⟩,
        ⟨"AssertSet", [⟨[.literal "color"]⟩], 8, 86⟩,
        ⟨"UpdateStatus", [⟨[.variable "LastEcho"]⟩], 9, 102⟩]
    let run := Engine.execute { catalog := .standard, policy := .proceed } env invs
    env.store.Accounted ∧ (∀ inv ∈ invs, inv.name ≠ "Sleep") ∧
      (∀ inv ∈ invs, inv.SparesReserved) ∧
      (∀ did ∈ (Plain.run env.store.unreserved invs).1, ∀ name ∈ did.target, ¬ Reserved name) ∧
      run.results.map (·.outcome.message) =
        [none, none, some "Ada likes blue", some "failed",
          some "expects at least 2 argument(s), got 1", some "unknown function `Lost`", none,
          some "variable `color` is not set", none] ∧
      run.reports = ["Enter a status message", "Ada likes blue"] ∧
      run.env.store.unreserved =
        [("user", .text "Ada"), ("Status", .text "Ada likes blue"),
          ("LastEcho", .text "Ada likes blue")] := by
  intro earlier env invs run
  have hfresh : Store.Accounted ((∅ : Store).set "user" (.text "Ada")) := by
    refine Store.accounted_of_fresh fun name hname => Store.get?_set_ne _ _ ?_
    rintro rfl
    exact absurd hname (by decide)
  have hstore : env.store.Accounted := Store.accounted_bind hfresh earlier
  have hwait : ∀ inv ∈ invs, inv.name ≠ "Sleep" := by decide +kernel
  have hspares : ∀ inv ∈ invs, inv.SparesReserved := by decide +kernel
  have htarget : ∀ did ∈ (Plain.run env.store.unreserved invs).1, ∀ name ∈ did.target,
      ¬ Reserved name := by decide +kernel
  obtain ⟨houtcomes, hreports, hvars, -⟩ :=
    execute_is_plain .instant env invs hstore rfl rfl hwait hspares htarget
  refine ⟨hstore, hwait, hspares, htarget, ?_, ?_, ?_⟩
  · have hmessages := congrArg (List.map Outcome.message) houtcomes
    rw [List.map_map, List.map_map] at hmessages
    refine Eq.trans hmessages ?_
    decide +kernel
  · rw [hreports]
    decide +kernel
  · rw [hvars]
    decide +kernel

end Runbook
