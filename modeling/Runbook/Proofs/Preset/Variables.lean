import Runbook.Proofs.CommandLine
import Runbook.Proofs.Preset.Written

/-!
# Variables in settings and on the command line

A line sets a variable in two forms, with an equals sign between the name and the value or with a
blank. The two say the same just if the value is one word (`load_set_agree_iff`): behind a blank all
words are the value, while behind an equals sign the first one is, and the others are dropped
without an error.

A definition of the command line means what the same text between quotes means in a line
(`load_definition`): it sets the variable, or it is the one error of the line.
-/

namespace Runbook

open Text

namespace PresetLine

/-! ## Pairs with an equals sign -/

theorem splitEquals_append {name : List Char} (h : '=' ∉ name) (value : List Char) :
    splitEquals (name ++ '=' :: value) = some (String.ofList name, String.ofList value) := by
  obtain ⟨htake, hdrop⟩ := Arguments.takeWhile_dropWhile_equals h value
  unfold splitEquals
  rw [htake, hdrop]

/-- Words behind one with an equals sign are not looked at. -/
theorem variableSetting_equals {name : String} (hname : name ≠ "") (hequals : '=' ∉ name.toList)
    (value : String) (others : List String) :
    variableSetting ((name ++ ("=" ++ value)) :: others) = .ok (.variable name value) := by
  have htext : (name ++ ("=" ++ value)).toList = name.toList ++ '=' :: value.toList := by simp
  unfold variableSetting
  simp only [htext, splitEquals_append hequals, String.ofList_toList, pure_bind, if_neg hname]
  rfl

/-- One word is taken as a definition is, and refused with its error. -/
theorem variableSetting_word (text : String) :
    variableSetting [text] = match Arguments.readDefine text with
      | .ok (name, value) => .ok (.variable name value)
      | .error _ => .error (if '=' ∈ text.toList then .emptyName else .missingValue text) := by
  by_cases h : '=' ∈ text.toList
  · obtain ⟨name, value, hsplit, hname⟩ := List.eq_append_cons_of_mem h
    obtain ⟨htake, hdrop⟩ := Arguments.takeWhile_dropWhile_equals hname value
    unfold variableSetting Arguments.readDefine
    simp only [hsplit, splitEquals_append hname, htake, hdrop, pure_bind]
    by_cases hempty : name = []
    · rw [if_pos hempty, if_pos (by simp [hempty]), if_pos (by simp)]
      rfl
    · rw [if_neg hempty, if_neg (by simpa using hempty)]
      rfl
  · unfold variableSetting Arguments.readDefine
    simp only [splitEquals_of_not_mem h, dropWhile_equals_of_not_mem h, if_neg h, if_true]
    rfl

/-! ## Lines that set a variable -/

/-- A line that sets a variable, with a text behind the directive. -/
def settingLine (rest : List Char) : List Char := "set".toList ++ ' ' :: rest

theorem ofChars_settingLine {rest : List Char} (h : Trimmed rest) (hne : rest ≠ []) :
    ofChars (settingLine rest) = ofSetting (variableSetting (words rest)) := by
  unfold settingLine
  rw [ofChars_directive (by decide) (by decide) (by decide) h hne]
  rfl

end PresetLine

namespace Preset

open PresetLine

theorem feed_not_mem_settingLine {rest : List Char} (h : '\n' ∉ rest) :
    '\n' ∉ settingLine rest := by
  simp [settingLine, h]

/-- A text of one line that sets a variable. -/
theorem load_settingLine {text : String} {rest : List Char} (htext : text.toList = settingLine rest)
    (h : Trimmed rest) (hne : rest ≠ []) (hfeed : '\n' ∉ rest) :
    load text = .ok (none.gathered 1 [ofSetting (variableSetting (words rest))]) := by
  have hline := ofChars_settingLine h hne
  rw [← htext] at hline
  rw [load_line, hline]
  · rw [htext]
    exact feed_not_mem_settingLine hfeed
  · rintro rfl
    nomatch htext
  · rw [hline]
    exact ofSetting_ne_tooLong _

/-- What is loaded of a text whose one line sets a variable. -/
theorem gathered_variable (name value : String) :
    let loaded := none.gathered 1 [.setting (.variable name value)]
    loaded.errors = [] ∧ loaded.preset = { none with store := (∅ : Store).set name (.text value) } ∧
      loaded.preset.store.toList = [(name, .text value)] :=
  ⟨rfl, rfl, (Store.empty.toList_set name (.text value)).trans rfl⟩

/-! ## Two forms -/

section Forms

variable {name value : String}

theorem trimmed_between (hname : name ≠ "") (hletters : ∀ c ∈ name.toList, isBlank c = false)
    (hvalue : value ≠ "") (hends : Trimmed value.toList) (c : Char) :
    Trimmed (name.toList ++ c :: value.toList) := by
  have htrimmed : Trimmed name.toList :=
    ⟨fun c hc => hletters c (List.mem_of_head? hc), fun c hc => hletters c (List.mem_of_getLast? hc)⟩
  exact htrimmed.append hends (by simpa using hname) (by simpa using hvalue) [c]

/-- Words with a blank between them are not the first alone. -/
theorem intercalate_eq_first_iff (first : String) (others : List String) :
    " ".intercalate (first :: others) = first ↔ others = [] := by
  cases others with
  | nil => simp
  | cons word words =>
    refine iff_of_false (fun h => ?_) (List.cons_ne_nil _ _)
    have hlength := congrArg String.length h
    rw [String.intercalate_cons_cons, String.length_append, String.length_append] at hlength
    have : " ".length = 1 := rfl
    omega

/-- A variable may be set with an equals sign or with a blank behind its name. Neither form is an
error, and the value has the words of the text behind the name; but with an equals sign only the
first of them is taken. So the two set the same just if there is one word. -/
theorem load_set_agree_iff (hname : name ≠ "")
    (hletters : ∀ c ∈ name.toList, isBlank c = false ∧ c ≠ '=' ∧ c ≠ '"') (hvalue : value ≠ "")
    (hfeed : '\n' ∉ value.toList) (hfirst : ∀ c ∈ value.toList.head?, isBlank c = false)
    (hlast : ∀ c ∈ value.toList.getLast?, isBlank c = false) :
    ∃ first others x y, words value.toList = first :: others ∧
      load ("set " ++ name ++ "=" ++ value) = .ok x ∧
      load ("set " ++ name ++ " " ++ value) = .ok y ∧ x.errors = [] ∧ y.errors = [] ∧
      x.preset.store.toList = [(name, .text first)] ∧
      y.preset.store.toList = [(name, .text (" ".intercalate (first :: others)))] ∧
      (x.preset.store = y.preset.store ↔ others = []) := by
  have htrimmed := trimmed_between hname (fun c hc => (hletters c hc).1) hvalue ⟨hfirst, hlast⟩
  have hname' : name.toList ≠ [] := by simpa using hname
  have hvalue' : value.toList ≠ [] := by simpa using hvalue
  have hequals : '=' ∉ name.toList := fun h => (hletters _ h).2.1 rfl
  have hnameFeed : '\n' ∉ name.toList := fun h => absurd (hletters _ h).1 (by decide)
  have hplain : ∀ c ∈ name.toList, c ≠ '"' ∧ isAsciiBlank c = false :=
    fun c hc => ⟨(hletters c hc).2.2, isAsciiBlank_eq_false (hletters c hc).1⟩
  -- The name and the equals sign are the front of one word, which goes on with the value.
  have hfront : ∀ c ∈ name.toList ++ ['='], c ≠ '"' ∧ isAsciiBlank c = false :=
    List.forall_mem_append.2 ⟨hplain, List.forall_mem_singleton.2 (by decide)⟩
  obtain ⟨first, others, hwords, hjoined⟩ :=
    words_letters_append hfront hvalue' fun c hc => isAsciiBlank_eq_false (hfirst c hc)
  have hx := @load_settingLine ("set " ++ name ++ "=" ++ value) _ (by simp [settingLine])
    (htrimmed '=') (by simp) (by simp [hnameFeed, hfeed])
  have hy := @load_settingLine ("set " ++ name ++ " " ++ value) _ (by simp [settingLine])
    (htrimmed ' ') (by simp) (by simp [hnameFeed, hfeed])
  have hxWords : words (name.toList ++ '=' :: value.toList) = (name ++ ("=" ++ first)) :: others := by
    simpa [String.append_assoc] using hjoined
  have hyWords : words (name.toList ++ ' ' :: value.toList) = name :: first :: others := by
    rw [words_letters_blank hplain hname', hwords, String.ofList_toList]
  rw [hxWords, variableSetting_equals hname hequals] at hx
  rw [hyWords, variableSetting_words hname hequals] at hy
  obtain ⟨hxErrors, -, hxStore⟩ := gathered_variable name first
  obtain ⟨hyErrors, -, hyStore⟩ := gathered_variable name (" ".intercalate (first :: others))
  refine ⟨first, others, _, _, hwords, hx, hy, hxErrors, hyErrors, hxStore, hyStore, ?_⟩
  constructor
  · intro h
    have hlist := (hxStore.symm.trans (congrArg Store.toList h)).trans hyStore
    simp only [List.cons.injEq, Prod.mk.injEq, Value.text.injEq, true_and, and_true] at hlist
    exact (intercalate_eq_first_iff first others).1 hlist.symm
  · rintro rfl
    rw [String.intercalate_singleton]

end Forms

/-- The value is one word of two stretches, one of them between quotes with blanks and an equals
sign in it. -/
theorem load_set_agree_iff_quoted :
    let name := "\\;x"
    let value := "\"eu = \\\" west \"\\="
    name ≠ "" ∧ (∀ c ∈ name.toList, isBlank c = false ∧ c ≠ '=' ∧ c ≠ '"') ∧ value ≠ "" ∧
      '\n' ∉ value.toList ∧ (∀ c ∈ value.toList.head?, isBlank c = false) ∧
      (∀ c ∈ value.toList.getLast?, isBlank c = false) ∧
      ∃ x y, load ("set " ++ name ++ "=" ++ value) = .ok x ∧
        load ("set " ++ name ++ " " ++ value) = .ok y ∧ x.errors = [] ∧ y.errors = [] ∧
        x.preset.store.toList = [(name, .text "eu = \" west \\=")] ∧
        x.preset.store = y.preset.store := by
  intro name value
  have hname : name ≠ "" := by decide
  have hletters : ∀ c ∈ name.toList, isBlank c = false ∧ c ≠ '=' ∧ c ≠ '"' := by
    simp [name, isBlank, blankRanges]
  have hvalue : value ≠ "" := by decide
  have hfeed : '\n' ∉ value.toList := by decide
  have hfirst : ∀ c ∈ value.toList.head?, isBlank c = false := by
    simp [value, isBlank, blankRanges]
  have hlast : ∀ c ∈ value.toList.getLast?, isBlank c = false := by
    simp [value, isBlank, blankRanges]
  have hwords : words value.toList = ["eu = \" west \\="] := by decide +kernel
  obtain ⟨first, others, x, y, hsplit, hx, hy, hxErrors, hyErrors, hxStore, -, hagree⟩ :=
    load_set_agree_iff hname hletters hvalue hfeed hfirst hlast
  obtain ⟨rfl, rfl⟩ := List.cons.inj (hsplit.symm.trans hwords)
  exact ⟨hname, hletters, hvalue, hfeed, hfirst, hlast, x, y, hx, hy, hxErrors, hyErrors, hxStore,
    hagree.2 rfl⟩

/-- A value of two words: with an equals sign the second is lost, and there is no error. -/
theorem load_set_disagree :
    let name := "greeting"
    let value := "hello world"
    (∀ c ∈ name.toList, isBlank c = false ∧ c ≠ '=' ∧ c ≠ '"') ∧ '\n' ∉ value.toList ∧
      (∀ c ∈ value.toList.head?, isBlank c = false) ∧
      (∀ c ∈ value.toList.getLast?, isBlank c = false) ∧
      ∃ x y, load ("set " ++ name ++ "=" ++ value) = .ok x ∧
        load ("set " ++ name ++ " " ++ value) = .ok y ∧ x.errors = [] ∧ y.errors = [] ∧
        x.preset.store.toList = [(name, .text "hello")] ∧
        y.preset.store.toList = [(name, .text "hello world")] ∧
        x.preset.store ≠ y.preset.store := by
  intro name value
  have hx := @load_settingLine ("set " ++ name ++ "=" ++ value) "greeting=hello world".toList
    (by decide) (by simp [Trimmed, isBlank, blankRanges]) (by decide) (by decide)
  have hy := @load_settingLine ("set " ++ name ++ " " ++ value) "greeting hello world".toList
    (by decide) (by simp [Trimmed, isBlank, blankRanges]) (by decide) (by decide)
  have hxSetting : ofSetting (variableSetting (words "greeting=hello world".toList)) =
      .setting (.variable name "hello") := by decide +kernel
  have hySetting : ofSetting (variableSetting (words "greeting hello world".toList)) =
      .setting (.variable name "hello world") := by decide +kernel
  rw [hxSetting] at hx
  rw [hySetting] at hy
  obtain ⟨hxErrors, -, hxStore⟩ := gathered_variable name "hello"
  obtain ⟨hyErrors, -, hyStore⟩ := gathered_variable name "hello world"
  refine ⟨by simp [name, isBlank, blankRanges], by decide, by simp [value, isBlank, blankRanges],
    by simp [value, isBlank, blankRanges], _, _, hx, hy, hxErrors, hyErrors, hxStore, hyStore,
    fun h => ?_⟩
  have hlist := (hxStore.symm.trans (congrArg Store.toList h)).trans hyStore
  exact absurd hlist (by decide)

/-! ## Definitions of the command line -/

/-- A definition of the command line, between quotes in a line that sets a variable, is read as on
the command line: if it is taken there, the line sets just its variable to its value, and if it is
refused there, the line sets nothing and has one error, for its missing name or its missing
value. -/
theorem load_definition {text : String} (hfeed : '\n' ∉ text.toList) :
    let line := "set \"" ++ String.ofList (escape text.toList) ++ "\""
    (∀ name value, Arguments.readDefine text = .ok (name, value) →
      ∃ loaded, load line = .ok loaded ∧ loaded.errors = [] ∧
        loaded.preset = { none with store := (∅ : Store).set name (.text value) } ∧
        loaded.preset.store.toList = [(name, .text value)]) ∧
    (∀ reason, Arguments.readDefine text = .error reason →
      ∃ loaded, load line = .ok loaded ∧ loaded.preset = none ∧ loaded.errors =
        [(1, if '=' ∈ text.toList then .emptyName else .missingValue text)]) := by
  intro line
  have hline : line.toList = settingLine (quoted text.toList) := by
    simp [line, settingLine, quoted]
  have hload := load_settingLine hline (trimmed_quoted _) (List.cons_ne_nil _ _)
    (not_mem_quoted (by decide) (by decide) hfeed)
  rw [words_quoted, variableSetting_word] at hload
  constructor
  · intro name value hread
    rw [hread] at hload
    exact ⟨_, hload, gathered_variable name value⟩
  · intro reason hread
    rw [hread] at hload
    exact ⟨_, hload, rfl, rfl⟩

/-- A definition with two equals signs, quotes and a backslash at its end, and one without a
name. -/
theorem load_definition_awkward :
    '\n' ∉ " a\"=b=\\".toList ∧ '\n' ∉ "=x\r".toList ∧
      (∃ loaded, load "set \" a\\\"=b=\\\\\"" = .ok loaded ∧ loaded.errors = [] ∧
        loaded.preset.store.toList = [(" a\"", .text "b=\\")]) ∧
      ∃ loaded, load "set \"=x\r\"" = .ok loaded ∧ loaded.preset = none ∧
        loaded.errors = [(1, .emptyName)] := by
  have hpair : '\n' ∉ " a\"=b=\\".toList := by decide
  have hnameless : '\n' ∉ "=x\r".toList := by decide
  obtain ⟨loaded, hload, herrors, -, hstore⟩ :=
    (load_definition hpair).1 " a\"" "b=\\" rfl
  obtain ⟨refused, hrefused, hpreset, herror⟩ := (load_definition hnameless).2 _ rfl
  exact ⟨hpair, hnameless, ⟨loaded, hload, herrors, hstore⟩, refused, hrefused, hpreset, herror⟩

end Preset

end Runbook
