import Runbook.Proofs.Preset.Lines
import Runbook.Proofs.Text.Words

/-!
# Written presets

Settings are written one to a line: the policy by its word, the log filter, and the name and the
value of each variable, as quoted texts. Reading the lines gives back the settings, whatever
characters the filter, the names and the values have, save a line feed, and an equals sign in a name
(`load_written`).
-/

namespace Runbook

/-! ## Lines -/

/-- The word by which a policy is written. -/
def Policy.word : Policy → String
  | .abort => "abort"
  | .proceed => "continue"

namespace Preset

/-- The line that sets a policy. -/
def policyLine (policy : Policy) : List Char := "policy".toList ++ ' ' :: policy.word.toList

/-- The line that sets a filter of the log, whatever its characters. -/
def logLine (filter : String) : List Char := "log".toList ++ ' ' :: Text.quoted filter.toList

/-- The line of a variable, given by its name and its value. -/
def variableLine (v : String × String) : List Char :=
  "set".toList ++ ' ' :: (Text.quoted v.1.toList ++ ' ' :: Text.quoted v.2.toList)

/-- The lines of settings. -/
def written (policy : Option Policy) (log : Option String) (pairs : List (String × String)) :
    List (List Char) :=
  policy.toList.map policyLine ++ log.toList.map logLine ++ pairs.map variableLine

end Preset

namespace PresetLine

open Preset Text

theorem ofChars_policyLine (policy : Policy) :
    ofChars (policyLine policy) = .setting (.policy policy) := by
  cases policy <;> decide +kernel

theorem ofChars_logLine (filter : String) :
    ofChars (logLine filter) = .setting (.log filter) := by
  unfold logLine
  rw [ofChars_directive (by decide) (by decide) (by decide) (trimmed_quoted _)
    (List.cons_ne_nil _ _), words_quoted]
  rfl

theorem dropWhile_equals_of_not_mem {cs : List Char} (h : '=' ∉ cs) :
    cs.dropWhile (· ≠ '=') = [] := by
  have hall : ∀ c ∈ cs, decide (c ≠ '=') = true := by
    intro c hc
    exact decide_eq_true fun heq => h (heq ▸ hc)
  rw [← List.append_nil cs, List.dropWhile_append_of_pos hall]
  rfl

theorem splitEquals_of_not_mem {cs : List Char} (h : '=' ∉ cs) : splitEquals cs = Option.none := by
  unfold splitEquals
  rw [dropWhile_equals_of_not_mem h]

/-- A name without an equals sign takes the words behind it for its value. -/
theorem variableSetting_words {name : String} (hname : name ≠ "") (hequals : '=' ∉ name.toList)
    (word : String) (words : List String) : variableSetting (name :: word :: words) =
      .ok (.variable name (" ".intercalate (word :: words))) := by
  unfold variableSetting
  simp only [splitEquals_of_not_mem hequals, List.cons_ne_nil, if_false, pure_bind, hname]
  rfl

theorem ofChars_variableLine {name : String} (hname : name ≠ "") (hequals : '=' ∉ name.toList)
    (value : String) :
    ofChars (variableLine (name, value)) = .setting (.variable name value) := by
  have hrest : Trimmed (quoted name.toList ++ ' ' :: quoted value.toList) :=
    (trimmed_quoted _).append (trimmed_quoted _) (List.cons_ne_nil _ _) (List.cons_ne_nil _ _) [' ']
  show ofChars ("set".toList ++ ' ' :: (quoted name.toList ++ ' ' :: quoted value.toList)) = _
  rw [ofChars_directive (by decide) (by decide) (by decide) hrest (List.cons_ne_nil _ _),
    words_quoted_quoted]
  show ofSetting (variableSetting [name, value]) = _
  rw [variableSetting_words hname hequals, String.intercalate_singleton]
  rfl

end PresetLine

/-! ## Texts -/

namespace Preset

open PresetLine

/-- The settings that are written in lines. -/
def settings (policy : Option Policy) (log : Option String) (pairs : List (String × String)) :
    List Setting :=
  policy.toList.map .policy ++ log.toList.map .log ++ pairs.map fun v => .variable v.1 v.2

variable {policy : Option Policy} {log : Option String} {pairs : List (String × String)}

theorem map_ofChars_written (hnames : ∀ v ∈ pairs, v.1 ≠ "" ∧ '=' ∉ v.1.toList) :
    (written policy log pairs).map ofChars =
      (settings policy log pairs).map PresetLine.setting := by
  unfold written settings
  simp only [List.map_append, List.map_map]
  congr 1
  · congr 1
    · exact List.map_congr_left fun p _ => ofChars_policyLine p
    · exact List.map_congr_left fun f _ => ofChars_logLine f
  · refine List.map_congr_left fun v hv => ?_
    exact ofChars_variableLine (hnames v hv).1 (hnames v hv).2 v.2

theorem applyAll_variables (p : Preset) (pairs : List (String × String)) :
    p.applyAll (pairs.map fun v => .variable v.1 v.2) =
      { p with store := p.store.setAll (pairs.map fun v => (v.1, .text v.2)) } := by
  induction pairs generalizing p with
  | nil => rfl
  | cons v pairs ih => exact ih (p.apply (.variable v.1 v.2))

theorem applyAll_settings :
    none.applyAll (settings policy log pairs) =
      ⟨policy, .none, log, .ofList (pairs.map fun v => (v.1, .text v.2))⟩ := by
  cases policy <;> cases log <;> exact applyAll_variables _ pairs

theorem not_mem_quoted {c : Char} (hquote : c ≠ '"') (hbackslash : c ≠ '\\') {cs : List Char}
    (h : c ∉ cs) : c ∉ Text.quoted cs := by
  have hescape : c ∉ Text.escape cs := by
    induction cs with
    | nil => exact h
    | cons d cs ih =>
      rw [List.mem_cons, not_or] at h
      unfold Text.escape
      split
      · simp [hbackslash, h.1, ih h.2]
      · simp [h.1, ih h.2]
  simp [Text.quoted, hquote, hescape]

/-- No line has a line feed in it, and none is empty. -/
theorem feed_not_mem_written (hlog : ∀ filter ∈ log, '\n' ∉ filter.toList)
    (hvariables : ∀ v ∈ pairs, '\n' ∉ v.1.toList ∧ '\n' ∉ v.2.toList) :
    ∀ line ∈ written policy log pairs, '\n' ∉ line ∧ line ≠ [] := by
  have hquoted : ∀ s : String, '\n' ∉ s.toList → '\n' ∉ Text.quoted s.toList := fun s h =>
    not_mem_quoted (by decide) (by decide) h
  intro line hline
  unfold written at hline
  rw [List.mem_append, List.mem_append] at hline
  rcases hline with (hline | hline) | hline
  · obtain ⟨p, -, rfl⟩ := List.mem_map.1 hline
    cases p <;> decide
  · obtain ⟨filter, hfilter, rfl⟩ := List.mem_map.1 hline
    have hfeed := hquoted filter (hlog filter (Option.mem_toList.1 hfilter))
    simp [logLine, hfeed]
  · obtain ⟨v, hv, rfl⟩ := List.mem_map.1 hline
    have hname := hquoted v.1 (hvariables v hv).1
    have hvalue := hquoted v.2 (hvariables v hv).2
    simp [variableLine, hname, hvalue]

/-- Settings that are written one to a line are read back: a policy, a log filter and variables
with distinct names in this order, whatever the characters of the texts are, but for line feeds and
for equals signs in names. A line feed stands behind every line or only between two. -/
theorem load_written (policy : Option Policy) (log : Option String)
    (pairs : List (String × String)) (hlog : ∀ filter ∈ log, '\n' ∉ filter.toList)
    (hnodup : (pairs.map (·.1)).Nodup)
    (hnames : ∀ v ∈ pairs, v.1 ≠ "" ∧ '=' ∉ v.1.toList)
    (hfeeds : ∀ v ∈ pairs, '\n' ∉ v.1.toList ∧ '\n' ∉ v.2.toList) :
    let lines := written policy log pairs
    ∀ text ∈ [lines.flatMap (· ++ ['\n']), ['\n'].intercalate lines],
      ∃ loaded, load (String.ofList text) = .ok loaded ∧ loaded.errors = [] ∧ loaded.unknown = [] ∧
        loaded.preset.policy = policy ∧ loaded.preset.log = log ∧ loaded.preset.limit = .none ∧
        loaded.preset.store.toList = pairs.map fun v => (v.1, .text v.2) := by
  intro lines text htext
  have hlines := @feed_not_mem_written policy log pairs hlog hfeeds
  have hread : Text.lines text = lines := by
    rcases List.mem_cons.1 htext with rfl | htext
    · exact Text.lines_flatMap_feed fun l hl => (hlines l hl).1
    · obtain rfl := List.mem_singleton.1 htext
      exact Text.lines_intercalate_feed hlines
  have hdirectives : directives (String.ofList text) =
      (settings policy log pairs).map PresetLine.setting := by
    unfold directives
    rw [String.toList_ofList, hread]
    exact map_ofChars_written hnames
  -- Every line is a setting, so nothing is wrong, passed over or too long.
  have hsetting : ∀ l ∈ directives (String.ofList text), ∃ s, l = PresetLine.setting s := by
    intro l hl
    rw [hdirectives] at hl
    obtain ⟨s, -, rfl⟩ := List.mem_map.1 hl
    exact ⟨s, rfl⟩
  have hload := load_of_not_mem fun hlong => nomatch hsetting _ hlong
  refine ⟨_, hload, numbered_of_forall_none ?_, numbered_of_forall_none ?_, ?_⟩
  · intro l hl
    obtain ⟨s, rfl⟩ := hsetting l hl
    rfl
  · intro l hl
    obtain ⟨s, rfl⟩ := hsetting l hl
    rfl
  have hpreset : (none.gathered 1 (directives (String.ofList text))).preset =
      ⟨policy, .none, log, .ofList (pairs.map fun v => (v.1, .text v.2))⟩ := by
    rw [← applyAll_settings, hdirectives]
    unfold gathered
    rw [List.filterMap_map]
    exact congrArg none.applyAll List.filterMap_some
  rw [hpreset]
  refine ⟨rfl, rfl, rfl, ?_⟩
  refine (Store.empty.toList_setAll _).trans (Listing.putAll_of_nodup ?_)
  simpa [Store.empty, Store.toList, Function.comp_def] using hnodup

/-- Blanks, quotes, backslashes, semicolons, equals signs and a carriage return in the texts, and an
empty value. -/
theorem load_written_awkward :
    let log := some "a=\"b\" ; c\\"
    let pairs := [("; x\t\"", "=\r"), ("\\", ""), ("set", " y = \\\"z ")]
    (∀ filter ∈ log, '\n' ∉ filter.toList) ∧ (pairs.map (·.1)).Nodup ∧
      (∀ v ∈ pairs, v.1 ≠ "" ∧ '=' ∉ v.1.toList) ∧
      (∀ v ∈ pairs, '\n' ∉ v.1.toList ∧ '\n' ∉ v.2.toList) ∧
      ∃ loaded, load (String.ofList ((written (some .proceed) log pairs).flatMap (· ++ ['\n'])))
          = .ok loaded ∧ loaded.errors = [] ∧ loaded.preset.log = log ∧
        loaded.preset.store.toList = pairs.map fun v => (v.1, .text v.2) := by
  intro log pairs
  have hlog : ∀ filter ∈ log, '\n' ∉ filter.toList := by decide
  have hnodup : (pairs.map (·.1)).Nodup := by decide
  have hnames : ∀ v ∈ pairs, v.1 ≠ "" ∧ '=' ∉ v.1.toList := by decide
  have hfeeds : ∀ v ∈ pairs, '\n' ∉ v.1.toList ∧ '\n' ∉ v.2.toList := by decide
  obtain ⟨loaded, hload, herrors, -, -, hfilter, -, hstore⟩ :=
    load_written (some .proceed) log pairs hlog hnodup hnames hfeeds _ List.mem_cons_self
  exact ⟨hlog, hnodup, hnames, hfeeds, loaded, hload, herrors, hfilter, hstore⟩

end Preset

end Runbook
