import Mathlib
import Runbook.Proofs.Invocation.Written
import Runbook.Proofs.Run.Arguments
import Runbook.Run.Event

/-!
# Values pass through scripts unchanged

A text that a script sets a variable to and then writes through a reference to the variable comes
out as it went in, whatever characters it has and whatever the variable is called
(`set_echo_verbatim`). On its way it is escaped and read back, bound as an argument, written under
the name, substituted for the reference and bound again; nowhere is it cut or scanned a second time.

The name may be that of a variable in which arguments are handed over. Binding the second step
overwrites it then, but the texts of the arguments are made before.
-/

namespace Runbook

open Text

/-! ## Reading the script -/

namespace Lexeme

theorem split_space {rest : List Char} (h : rest.head?.any isSpace = false) :
    split (' ' :: rest) = (⟨.blank, [' ']⟩ :: (split rest).1, (split rest).2) :=
  split_blanks (w := [' ']) nofun (List.forall_mem_singleton.2 rfl) h

theorem head?_any_isSpace {w : List Char} (hw : Token.IsIdentifier w) (rest : List Char) :
    (w ++ rest).head?.any isSpace = false := by
  obtain ⟨c, cs, rfl, hc, -⟩ := hw
  show isSpace c = false
  rw [Bool.eq_false_iff, ne_eq, isSpace_iff]
  rintro (rfl | rfl) <;> exact absurd hc (by decide)

/-- The lexemes of a line that names a variable with a word and gives its value in quotes. -/
theorem split_set {name value : String} (hname : Token.IsIdentifier name.toList)
    (hvalue : SingleLine value.toList) :
    split ("Set".toList ++ ' ' :: (name.toList ++ ' ' :: quoted value.toList)) =
      ([⟨.word, "Set".toList⟩, ⟨.blank, [' ']⟩, ⟨.word, name.toList⟩, ⟨.blank, [' ']⟩,
        (Part.literal value).lexeme], none) := by
  have hpart : split (quoted value.toList) = ([(Part.literal value).lexeme], none) := by
    have := @split_part (.literal value) hvalue [] rfl
    rwa [List.append_nil, split_nil] at this
  rw [split_word (by decide) rfl, split_space (head?_any_isSpace hname _), split_word hname rfl,
    split_space rfl, hpart]

end Lexeme

namespace Invocation

/-- A step that sets a variable to a text. -/
def setting (name value : String) : Invocation :=
  ⟨"Set", [⟨[.literal name]⟩, ⟨[.literal value]⟩], 1, 0⟩

/-- A step that writes the text of a variable. -/
def echoing (name : String) (position : Nat) : Invocation :=
  ⟨"Echo", [⟨[.variable name]⟩], 2, position⟩

/-- The arguments of a line with a word and a quoted string behind its name. -/
theorem groups_set (name value : String) (position : Nat) :
    (Token.groups (Token.place position [⟨.blank, [' ']⟩, ⟨.word, name.toList⟩, ⟨.blank, [' ']⟩,
        (Part.literal value).lexeme])).map Argument.ofTokens =
      (setting name value).arguments := by
  have hname (i : Nat) : Part.ofToken (Token.ofLexeme i ⟨.word, name.toList⟩) = .literal name :=
    congrArg Part.literal String.ofList_toList
  show [Argument.ofTokens [_], Argument.ofTokens [_]] = _
  simp only [Argument.ofTokens, List.foldr_cons, List.foldr_nil, hname, Part.ofToken_ofLexeme]
  rfl

theorem ofLine_set (source : List Char) (name value : String) :
    ofLine source 1 (Token.place 0 [⟨.word, "Set".toList⟩, ⟨.blank, [' ']⟩, ⟨.word, name.toList⟩,
        ⟨.blank, [' ']⟩, (Part.literal value).lexeme]) =
      .ok (some (setting name value)) := by
  show Except.ok (some (⟨_, List.map Argument.ofTokens _, 1, 0⟩ : Invocation)) = _
  rw [groups_set]
  rfl

/-- The script that sets a variable and writes its text is read as these two steps. -/
theorem ofChars_setEcho {name value : String} (hname : Token.IsIdentifier name.toList)
    (hvalue : SingleLine value.toList) :
    ∃ position, ofChars ("Set".toList ++ ' ' :: (name.toList ++ ' ' :: quoted value.toList) ++
        (['\n'] ++ ("Echo $".toList ++ name.toList))) =
      .ok [setting name value, echoing name position] := by
  have hspells := (Part.WellFormed.spells (p := .literal value) hvalue).singleLine nofun
  have hline : SingleLine
      ("Set".toList ++ ' ' :: (name.toList ++ ' ' :: quoted value.toList)) := by
    have hquoted : SingleLine (quoted value.toList) := hspells.1
    simp [hname.singleLine, hquoted]
  have hecho : (echoing name 0).WellFormed := by
    have hcommand : Token.IsIdentifier "Echo".toList := by decide
    exact ⟨hcommand, List.forall_mem_singleton.2
      ⟨nofun, List.forall_mem_singleton.2 hname, .singleton _⟩⟩
  have hwritten : "Echo $".toList ++ name.toList = (echoing name 0).written := by
    simp [written, echoing, Argument.written, Part.written]
  have hbreak := lineBreak_of_mem (w := ['\n']) (by decide) hline
    (b := (echoing name 0).written) (by simp [written, echoing])
  have hnone := hline.lineEnds_append []
  rw [List.append_nil] at hnone
  rw [hwritten, ofChars_lineBreak hbreak, hnone,
    ofChars_of_singleLine hline (Lexeme.split_set hname hvalue), ofLine_set,
    ofChars_written hecho]
  exact ⟨_, rfl⟩

end Invocation

/-! ## Running the steps -/

namespace Engine

variable {engine : Engine} {p : Progress} {inv : Invocation} {command : Command}

/-- A step of a run that nothing can stop goes on with the store that its command leaves, if the
command passes. -/
theorem step_of_pass (hgoing : p.stopped = false) (hlive : p.env.cancelled = false)
    (hlimit : p.env.remaining = none) (hfind : engine.catalog.find? inv.name = some command)
    (hn : command.minArguments ≤ inv.arguments.length) {store : Store} {message : Option String}
    (output : List Output)
    (hbody : ∀ found : Env, found.store = p.env.store.bind p.bound inv →
      command.body found =
        { ({ found with store } : Env).finish ⟨.pass, message⟩ with output }) :
    (engine.step p inv).1.result = ⟨inv.name, command.description, ⟨.pass, message⟩⟩ ∧
      (engine.step p inv).2 =
        ⟨{ p.env with store }, inv.arguments.length, false, p.taken + 1⟩ := by
  let found : Env := { p.env with store := p.env.store.bind p.bound inv }
  have harrival : engine.arrival p = p.env := Env.elapse_of_unlimited hlimit _
  have hentry : engine.entry p inv = found := @Env.elapse_of_unlimited found hlimit _
  have hattempt := engine.attempt_of_find? hfind hn p
  rw [hentry, hbody found rfl] at hattempt
  have hdescription : engine.description inv.name = command.description := by
    rw [description, hfind]
    rfl
  -- Without a time limit before the body there is none after it.
  have hafter :
      Effect.env { ({ found with store } : Env).finish ⟨.pass, message⟩ with output } found =
        { p.env with store } := by
    simp only [Effect.env, Env.finish, Env.ending, found, hlimit, Option.bind_none]
  constructor
  · rw [result_step, hdescription, engine.step_of_going hgoing (harrival ▸ hlive), harrival]
    dsimp only [Record.outcome]
    rw [hattempt]
    rfl
  · rw [engine.step_of_going hgoing (harrival ▸ hlive), harrival]
    dsimp only
    rw [hattempt, settle]
    dsimp only
    rw [hafter, @Env.elapse_of_unlimited { p.env with store } hlimit]
    simp [hlive, Conduct.outcome, Env.finish, Env.ending, Ending.outcome, Status.isPass]

/-- A step that sets a variable gives it the text, whatever the variable is called. -/
theorem step_setting (hgoing : p.stopped = false) (hlive : p.env.cancelled = false)
    (hlimit : p.env.remaining = none) (hfind : engine.catalog.find? "Set" = some .set)
    {name : String} (hname : name ≠ "") (value : String) :
    let inv := Invocation.setting name value
    let store := (p.env.store.bind p.bound inv).set name (.text value)
    (engine.step p inv).1.result = ⟨"Set", Command.set.description, .pass⟩ ∧
      (engine.step p inv).2 = ⟨{ p.env with store }, 2, false, p.taken + 1⟩ := by
  intro inv store
  have htexts : inv.texts p.env.store.text? = [name, value] := by
    simp [inv, Invocation.setting, Invocation.texts, Argument.resolve, Part.resolve]
  refine step_of_pass hgoing hlive hlimit hfind (Nat.le_refl 2) [] ?_
  intro found hfound
  have hfirst := Env.argument_eq_text (i := 0) hfound (congrArg (·[0]?) htexts) ""
  have hsecond := Env.argument_eq_text (i := 1) hfound (congrArg (·[1]?) htexts) ""
  have hstore : found.store.set name (.text value) = store := by rw [hfound]
  clear_value store
  show (if found.argument 0 "" = "" then _ else _) = _
  rw [hfirst, hsecond, if_neg hname, hstore]
  rfl

/-- A step that writes a variable writes the text that the variable had when the step was taken up,
though binding may overwrite it. -/
theorem step_echoing (hgoing : p.stopped = false) (hlive : p.env.cancelled = false)
    (hlimit : p.env.remaining = none) (hfind : engine.catalog.find? "Echo" = some .echo)
    {name value : String} (hvalue : p.env.store.get? name = some (.text value)) (position : Nat) :
    let inv := Invocation.echoing name position
    let store := (p.env.store.bind p.bound inv).set Command.lastEchoName (.text value)
    (engine.step p inv).1.result = ⟨"Echo", Command.echo.description, ⟨.pass, some value⟩⟩ ∧
      (engine.step p inv).2 = ⟨{ p.env with store }, 1, false, p.taken + 1⟩ := by
  intro inv store
  have htexts : inv.texts p.env.store.text? = [value] := by
    simp [inv, Invocation.echoing, Invocation.texts, Argument.resolve, Part.resolve, Store.text?,
      hvalue, Value.toText]
  refine step_of_pass hgoing hlive hlimit hfind (Nat.zero_le 1) [.line value] ?_
  intro found hfound
  have hline : " ".intercalate found.arguments = value := by
    rw [Env.arguments_bound hfound, htexts]
    exact String.intercalate_singleton
  show ({ Env.finish
      { found with store := found.store.set _ (.text (" ".intercalate found.arguments)) } _ with
    output := [.line (" ".intercalate found.arguments)] } : Effect) = _
  rw [hline, hfound]

/-- The two steps of the script pass, and the second keeps what it writes. -/
theorem steps_setEcho (hset : engine.catalog.find? "Set" = some .set)
    (hecho : engine.catalog.find? "Echo" = some .echo) (session : String) (store : Store)
    {name : String} (hname : name ≠ "") (value : String) (position : Nat) :
    let did := engine.steps (.start ⟨session, store, false, none⟩)
      [.setting name value, .echoing name position]
    did.1.map Record.result =
        [⟨"Set", Command.set.description, .pass⟩,
          ⟨"Echo", Command.echo.description, ⟨.pass, some value⟩⟩] ∧
      did.2.stopped = false ∧
      did.2.env.store.get? Command.lastEchoName = some (.text value) := by
  intro did
  let start : Progress := .start ⟨session, store, false, none⟩
  -- Of what the first step leaves, only the value of the variable counts from here on.
  obtain ⟨written, hvalue, hfirst, hnext⟩ : ∃ written : Store,
      written.get? name = some (.text value) ∧
      (engine.step start (.setting name value)).1.result =
        ⟨"Set", Command.set.description, .pass⟩ ∧
      (engine.step start (.setting name value)).2 =
        ⟨⟨session, written, false, none⟩, 2, false, 1⟩ :=
    ⟨_, Store.get?_set_self _ name (.text value),
      step_setting (p := start) rfl rfl rfl hset hname value⟩
  let next : Progress := ⟨⟨session, written, false, none⟩, 2, false, 1⟩
  obtain ⟨hsecond, hlast⟩ := step_echoing (p := next) rfl rfl rfl hecho hvalue position
  have hdid : did = ([(engine.step start (.setting name value)).1,
      (engine.step next (.echoing name position)).1],
        (engine.step next (.echoing name position)).2) := by
    show engine.steps start _ = _
    rw [steps_cons, hnext]
    rfl
  rw [hdid]
  refine ⟨?_, congrArg Progress.stopped hlast, ?_⟩
  · simp only [List.map_cons, List.map_nil, hfirst, hsecond]
  · rw [hlast]
    dsimp only
    rw [Store.get?_set_self]

end Engine

/-- A text that a script gives a variable, with a backslash before each quote and backslash, and
then writes through the variable, is written as it is, and it is the last line that is kept; both
steps pass. This holds for any name, those of arguments and of their number included, and from any
store, under either policy, as long as the run is not cancelled; further commands may stand in the
catalog behind the standard ones. -/
theorem set_echo_verbatim (extra : List Command) (policy : Policy) (pace : Pace) (session : String)
    (store : Store) {name value : String} (hname : Token.IsIdentifier name.toList)
    (hvalue : SingleLine value.toList) :
    let source :=
      "Set " ++ name ++ " \"" ++ String.ofList (escape value.toList) ++ "\"\nEcho $" ++ name
    let engine : Engine := { catalog := (Catalog.standard.addAll extra).1, policy, pace }
    let e := engine.run ⟨session, store, false, none⟩ source
    ∃ run, e.outcome = .ok run ∧ run.state = .completed ∧
      run.results =
        [⟨"Set", Command.set.description, .pass⟩,
          ⟨"Echo", Command.echo.description, ⟨.pass, some value⟩⟩] ∧
      e.env.store.get? Command.lastEchoName = some (.text value) := by
  intro source engine e
  have hsource : source.toList =
      "Set".toList ++ ' ' :: (name.toList ++ ' ' :: quoted value.toList) ++
        (['\n'] ++ ("Echo $".toList ++ name.toList)) := by
    simp [source, String.toList_append, quoted]
  obtain ⟨position, hread⟩ := Invocation.ofChars_setEcho hname hvalue
  have hparse : parse source = .ok [.setting name value, .echoing name position] := by
    unfold parse
    rw [hsource, hread]
  have hne : name ≠ "" := by
    rintro rfl
    exact absurd hname (by decide)
  have hset : engine.catalog.find? "Set" = some .set :=
    Catalog.find?_addAll (c := .standard) rfl extra
  have hecho : engine.catalog.find? "Echo" = some .echo :=
    Catalog.find?_addAll (c := .standard) rfl extra
  let run := engine.execute ⟨session, store, false, none⟩
    [.setting name value, .echoing name position]
  obtain ⟨hresults, hgoing, hkept⟩ :=
    engine.steps_setEcho hset hecho session store hne value position
  have hrun : e = ⟨.ok run, run.env, .moved .idle .parsing :: run.events .parsing⟩ := by
    show engine.run _ source = _
    unfold Engine.run
    rw [hparse]
  refine ⟨run, by rw [hrun], if_neg (by simp [run, Engine.execute, hgoing]), hresults, ?_⟩
  rw [hrun]
  show run.env.store.get? _ = _
  rw [engine.store_execute]
  exact hkept

/-- The name is that of an argument which binding takes away before the second step, and an earlier
run has left a number of arguments; the value has quotes, a backslash and what would be a reference
or a comment if it were scanned again. -/
theorem set_echo_verbatim_argument :
    let value := "say \"hi\"\\ $x  # \x07"
    let store := (∅ : Store).set argumentCountName (.int 3)
    let engine : Engine := { catalog := (Catalog.standard.addAll []).1 }
    let source := "Set Argument1 \"say \\\"hi\\\"\\\\ $x  # \x07\"\nEcho $Argument1"
    let e := engine.run ⟨"", store, false, none⟩ source
    Token.IsIdentifier "Argument1".toList ∧ SingleLine value.toList ∧
      ∃ run, e.outcome = .ok run ∧ run.state = .completed ∧
        run.results.map (·.outcome) = [.pass, ⟨.pass, some value⟩] ∧
        e.env.store.get? Command.lastEchoName = some (.text value) := by
  intro value store engine source e
  have hname : Token.IsIdentifier "Argument1".toList := by decide
  have hvalue : SingleLine value.toList := by decide
  obtain ⟨run, hrun, hstate, hresults, hkept⟩ :=
    set_echo_verbatim [] .abort .instant "" store hname hvalue
  have hsource : "Set " ++ "Argument1" ++ " \"" ++ String.ofList (escape value.toList) ++
      "\"\nEcho $" ++ "Argument1" = source := by decide
  rw [hsource] at hrun hkept
  refine ⟨hname, hvalue, run, hrun, hstate, ?_, hkept⟩
  rw [hresults]
  rfl

end Runbook
