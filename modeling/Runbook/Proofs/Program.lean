import Runbook.Program
import Runbook.Proofs.CommandLine
import Runbook.Proofs.Preset.Limits
import Runbook.Proofs.Run.Timely
import Runbook.Proofs.Session.Deadline

/-!
# The program as one run of a session

The program does what one run of a session does (`run_is_library_run`). The session starts with the
variables of the settings, in their order, and then those of the command line; the policy is that of
the command line, else the last of the settings, else to abort. The exit code and the standard
output tell the results of that run, and only a text that is no script gives the code of a run that
did not take place. A time limit that is longer than the waits of the run changes nothing that is
reported (`outcome_execution`).
-/

namespace Runbook

namespace Run

variable (run : Run)

/-! ## Exit codes -/

/-- A step of the run has this status. -/
def Has (s : Status) : Prop := ∃ r ∈ run.results, r.outcome.status = s

instance (s : Status) : Decidable (run.Has s) := inferInstanceAs (Decidable (∃ _ ∈ _, _))

/-- The exit code is that of the most severe status of a step. -/
theorem exitCode_verdict : Report.exitCode run.verdict =
    if run.Has .error then 2 else if run.Has .fail then 1 else if run.Has .skipped then 3
    else 0 := by
  have hhas : run.verdict ≠ .pass → run.Has run.verdict := fun hne =>
    (run.mem_statuses _).1 (Status.verdict_mem hne)
  have hnot : ∀ s : Status, run.verdict.severity < s.severity → ¬ run.Has s := fun s hlt hs =>
    Nat.not_le.2 hlt (Status.severity_le_verdict ((run.mem_statuses s).2 hs))
  cases hv : run.verdict with
  | error =>
    rw [hv] at hhas
    rw [if_pos (hhas (by decide))]
    rfl
  | fail =>
    rw [hv] at hhas hnot
    rw [if_neg (hnot .error (by decide)), if_pos (hhas (by decide))]
    rfl
  | skipped =>
    rw [hv] at hhas hnot
    rw [if_neg (hnot .error (by decide)), if_neg (hnot .fail (by decide)),
      if_pos (hhas (by decide))]
    rfl
  | pass =>
    rw [hv] at hnot
    rw [if_neg (hnot .error (by decide)), if_neg (hnot .fail (by decide)),
      if_neg (hnot .skipped (by decide))]
    rfl

end Run

namespace Program

/-! ## What is run -/

/-- The text of the settings that the program reads, empty if there is no file of them. -/
def FindsSettings (host : Host) (source : ConfigSource) (text : String) : Prop :=
  match settingsPath host source with
  | none => text = ""
  | some path => host.files.readText path = .ok text

/-- The variables that a run of the program starts with. -/
def variablesOf (a : Arguments) (config : String) : Listing :=
  Listing.putAll ((Preset.settingsOf config).filterMap Setting.variable? ++
    a.defines.map fun d => (d.1, .text d.2)) []

/-- Keeping going goes before the last policy of the settings, and this before aborting. -/
def policyOf (a : Arguments) (config : String) : Policy :=
  if a.has .keepGoing then .proceed
  else ((Preset.settingsOf config).filterMap Setting.policy?).getLast?.getD .abort

/-- The time limit of the command line, else the last one of the settings. -/
def limitOf (a : Arguments) (config : String) : Option Span :=
  a.timeout.or ((Preset.settingsOf config).filterMap Setting.limit?).getLast?

/-- What the program leaves is told by a run of the script in a session with the variables of the
settings and the definitions, provided that the run ends within its time limit if it has one. -/
def Accounts (a : Arguments) (config source : String) (exit : Exit) : Prop :=
  ∃ s : Session, s.id = "cli" ∧ s.sink = .recorder ∧ s.token = .first ∧
    s.store.toList = variablesOf a config ∧
    let library := s.run { catalog := .standard, policy := policyOf a config } source
    (∀ limit ∈ limitOf a config, library.1.waited < limit.nanoseconds) →
      (exit.code = 4 ↔ ∃ e, parse source = .error e) ∧ (exit.code = 4 → exit.stdout = "") ∧
      ∀ invs, parse source = .ok invs → ∃ run, library.1.outcome = .ok run ∧
        (exit.code = if run.Has .error then 2 else if run.Has .fail then 1
          else if run.Has .skipped then 3 else 0) ∧ exit.waited = run.waited ∧
        (a.has .json = false → exit.stdout = Report.unlines
          (library.2.sink.history.map Report.statusLine ++ run.results.map Report.resultLine ++
            [Report.verdictLine run]))

variable {a : Arguments} {host : Host} {config source : String}

theorem settings_of_representable (hconfig : FindsSettings host a.configSource config)
    (hlimits : ∀ line ∈ Text.lines config.toList, ¬ PresetLine.SetsExceeding line) :
    ∃ warnings, settings host a.configSource =
      .ok (Preset.none.applyAll (Preset.settingsOf config), warnings) := by
  unfold FindsSettings at hconfig
  unfold settings
  cases hpath : settingsPath host a.configSource with
  | none =>
    rw [hpath] at hconfig
    subst hconfig
    exact ⟨[], rfl⟩
  | some path =>
    rw [hpath] at hconfig
    have hmem : .tooLong ∉ Preset.directives config := by
      rw [Preset.tooLong_mem_directives_iff]
      rintro ⟨line, hline, hexceeds⟩
      exact hlimits line hline hexceeds
    dsimp only at hconfig ⊢
    rw [hconfig]
    dsimp only
    rw [Preset.load_of_not_mem hmem]
    exact ⟨_, rfl⟩

theorem toList_store_session (settings : List Setting) :
    (session a (Preset.none.applyAll settings)).store.toList =
      Listing.putAll (settings.filterMap Setting.variable? ++
        a.defines.map fun d => (d.1, .text d.2)) [] := by
  have hpreset : (Preset.none.applyAll settings).store.toList =
      Listing.putAll (settings.filterMap Setting.variable?) [] := by
    rw [Preset.store_applyAll, Store.toList_setAll]
    rfl
  have hnodup := (Preset.none.applyAll settings).store.nodup_names
  have hcopy : Listing.putAll (Preset.none.applyAll settings).store.toList [] =
      (Preset.none.applyAll settings).store.toList := by
    rw [Listing.putAll_of_nodup (by exact hnodup), List.nil_append]
  show (Store.setAll (Store.setAll ∅ _) _).toList = _
  rw [Store.toList_setAll, Store.toList_setAll]
  show Listing.putAll _ (Listing.putAll _ []) = _
  rw [hcopy, hpreset]
  exact List.foldl_append.symm

theorem policy_engine (settings : List Setting) :
    (engine a (Preset.none.applyAll settings)).policy = if a.has .keepGoing then .proceed
      else (settings.filterMap Setting.policy?).getLast?.getD .abort := by
  show (a.policy.or (Preset.none.applyAll settings).policy).getD .abort = _
  rw [Preset.policy_applyAll]
  unfold Arguments.policy
  split
  · rfl
  · simp [Preset.none]

theorem limit_applyAll (settings : List Setting) :
    a.timeout.or (Preset.none.applyAll settings).limit =
      a.timeout.or (settings.filterMap Setting.limit?).getLast? := by
  rw [Preset.limit_applyAll]
  simp [Preset.none]

/-! ## Running -/

/-- A limit that is longer than the waits of the run changes nothing that is reported. -/
theorem outcome_execution (p : Preset) {invs : List Invocation} (hparse : parse source = .ok invs)
    (hlimit : ∀ limit ∈ a.timeout.or p.limit,
      ((engine a p).execute ((session a p).env none) invs).waited < limit.nanoseconds) :
    let free := (engine a p).execute ((session a p).env none) invs
    ∃ run, (execution a p source).outcome = .ok run ∧ run.results = free.results ∧
      run.reports = free.reports ∧ run.state = free.state ∧ run.waited = free.waited := by
  intro free
  unfold execution
  dsimp only
  cases hlimited : a.timeout.or p.limit with
  | none =>
    exact ⟨_, ((session a p).run_of_parse (engine a p) hparse).1, rfl, rfl, rfl, rfl⟩
  | some limit =>
    obtain ⟨houtcome, -⟩ := (session a p).runWithin_of_parse (engine a p) limit.nanoseconds hparse
    have hfree : ((session a p).env none).Free := ⟨rfl, rfl⟩
    obtain ⟨hresults, hreports, hwaited, haborted, -⟩ := Engine.execute_within timely_standard
      punctual_standard rfl hfree invs (hlimit limit hlimited)
    refine ⟨_, houtcome, hresults, hreports, ?_, hwaited⟩
    unfold Run.state
    rw [← haborted]
    rfl

theorem outcome_execution_of_error (p : Preset) {e : ParseError}
    (hparse : parse source = .error e) : (execution a p source).outcome = .error e := by
  unfold execution
  dsimp only
  split
  · unfold Session.runWithin Engine.run
    rw [hparse]
  · unfold Session.run Engine.run
    rw [hparse]

theorem report_of_ok (a : Arguments) (warnings : List String) {e : Execution} {run : Run}
    (h : e.outcome = .ok run) : report a warnings e =
      { code := Report.exitCode run.verdict
        stdout := if a.has .json then Report.json run else Report.text run
        stderr := Report.unlines warnings
        waited := run.waited } := by
  unfold report
  rw [h]

/-- What is reported of an execution of these settings is that of a run in the session. -/
theorem accounts_of_report (warnings : List String) :
    let p := Preset.none.applyAll (Preset.settingsOf config)
    Accounts a config source (report a warnings (execution a p source)) := by
  intro p
  refine ⟨session a p, rfl, rfl, rfl, toList_store_session _, ?_⟩
  have hengine : ({ catalog := .standard, policy := policyOf a config } : Engine) = engine a p :=
    congrArg (Engine.mk .standard · .instant) (policy_engine _).symm
  have hlimits : limitOf a config = a.timeout.or p.limit := (limit_applyAll _).symm
  rw [hengine, hlimits]
  intro library htimely
  cases hparse : parse source with
  | error e =>
    have hreport : report a warnings (execution a p source) = notRun warnings e.message := by
      unfold report
      rw [outcome_execution_of_error p hparse]
    rw [hreport]
    exact ⟨⟨fun _ => ⟨e, rfl⟩, fun _ => rfl⟩, fun _ => rfl, nofun⟩
  | ok invs =>
    let free := (engine a p).execute ((session a p).env none) invs
    obtain ⟨hlibrary, hleft⟩ := (session a p).run_of_parse (engine a p) hparse
    have hwaited : library.1.waited = free.waited := by
      unfold Execution.waited
      rw [hlibrary]
    rw [hwaited] at htimely
    obtain ⟨run, hrun, hresults, hreports, hstate, hsame⟩ := outcome_execution p hparse htimely
    have hverdict : run.verdict = free.verdict := by
      unfold Run.verdict
      rw [run.statuses_eq, free.statuses_eq, hresults]
    have hhistory : library.2.sink.history = free.reports := by
      show ((session a p).run (engine a p) source).2.sink.history = _
      rw [hleft]
      exact congrArg Sink.history (Sink.reportAll_recording [] free.reports)
    have hreport := report_of_ok a warnings hrun
    have hcode : (report a warnings (execution a p source)).code =
        Report.exitCode free.verdict := by
      rw [hreport, ← hverdict]
    have hran : (report a warnings (execution a p source)).code ≠ 4 := by
      rw [hcode]
      cases free.verdict <;> decide
    refine ⟨⟨fun h => absurd h hran, nofun⟩, fun h => absurd h hran, ?_⟩
    rintro _ ⟨⟩
    have htime : (report a warnings (execution a p source)).waited = free.waited := by
      rw [hreport, ← hsame]
    refine ⟨free, hlibrary, hcode.trans free.exitCode_verdict, htime, fun hjson => ?_⟩
    have hline : Report.verdictLine run = Report.verdictLine free := by
      unfold Report.verdictLine
      rw [hverdict, hstate]
    rw [hreport, hhistory, ← hresults, ← hreports, ← hline]
    exact if_neg (by rw [hjson]; exact Bool.false_ne_true)

theorem decodeText_toUTF8 (text : String) : decodeText text.toUTF8 = .ok text := by
  have hdecode : String.fromUTF8? text.toUTF8 = some text := dif_pos text.isValidUTF8
  unfold decodeText
  rw [hdecode]

end Program

end Runbook
