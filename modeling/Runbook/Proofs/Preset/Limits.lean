import Mathlib
import Runbook.CommandLine
import Runbook.Proofs.Preset.Lines
import Runbook.Proofs.Span
import Runbook.Proofs.Text.Words

/-!
# Time limits in settings and on the command line

A line that sets a time limit is in error if it does not name one positive number of seconds that a
span can hold, and the error is all that the line leaves: the text is read as if the line were
blank. This holds of every text in which no line names a positive number that exceeds a span. The
check for a positive finite number lets such a line pass, and then the reading of the whole text
ends without a result; so does the reading of a command line with such a limit
(`load_limits`).
-/

namespace Runbook

namespace PresetLine

open Text

/-- The line sets a time limit, in its own way. -/
def SetsLimit (line : List Char) : Prop := directive (trim line) = "timeout"

/-- The line sets a time limit that a span can hold. -/
def SetsFitting (line : List Char) : Prop :=
  SetsLimit line ∧ ∃ text, arguments (trim line) = [text] ∧ Span.Fits text

/-- The line sets a time limit that no span can hold, though it is a positive number. -/
def SetsExceeding (line : List Char) : Prop :=
  SetsLimit line ∧ ∃ text, arguments (trim line) = [text] ∧ Span.Exceeds text

-- Whether there is one word with a property is decided by looking at the words.
instance decidableOneWord (p : String → Prop) [DecidablePred p] :
    (words : List String) → Decidable (∃ text, words = [text] ∧ p text)
  | [] => .isFalse (by simp)
  | [text] => decidable_of_iff (p text) (by simp)
  | _ :: _ :: _ => .isFalse (by simp)

instance (line : List Char) : Decidable (SetsLimit line) :=
  inferInstanceAs (Decidable (_ = _))

instance (line : List Char) : Decidable (SetsFitting line) :=
  inferInstanceAs (Decidable (_ ∧ _))

instance (line : List Char) : Decidable (SetsExceeding line) :=
  inferInstanceAs (Decidable (_ ∧ _))

variable {line : List Char}

theorem ofChars_of_setsLimit (h : SetsLimit line) :
    ofChars line = limitSetting (arguments (trim line)) := by
  unfold SetsLimit at h
  unfold ofChars
  cases htrim : trim line with
  | nil =>
    rw [htrim] at h
    exact absurd h (by decide)
  | cons c cs =>
    rw [htrim] at h
    have hcomment : c ≠ ';' := by
      rintro rfl
      -- A comment has another first word.
      have hfirst : (directive (';' :: cs)).toList.head? = some ';' := by
        unfold directive
        rw [String.toList_ofList, List.takeWhile_cons_of_pos (by decide)]
        rfl
      rw [h] at hfirst
      exact absurd hfirst (by decide)
    dsimp only
    rw [if_neg hcomment]
    unfold ofDirective
    rw [h]
    rfl

/-- No other directive ends the reading. -/
theorem ofArguments_ne_tooLong {word : String} (h : word ≠ "timeout") (words : List String) :
    ofArguments word words ≠ .tooLong := by
  unfold ofArguments
  split
  · exact ofSetting_ne_tooLong _
  · exact absurd rfl h
  · exact ofSetting_ne_tooLong _
  · exact ofSetting_ne_tooLong _
  · exact nofun

theorem ofChars_ne_tooLong (h : ¬ SetsLimit line) : ofChars line ≠ .tooLong := by
  unfold SetsLimit at h
  unfold ofChars
  split
  · intro htooLong
    cases htooLong
  · rename_i c cs htrim
    rw [htrim] at h
    split
    · intro htooLong
      cases htooLong
    · exact ofArguments_ne_tooLong h _

theorem limitSetting_of_exceeds {text : String} (h : Span.Exceeds text) :
    limitSetting [text] = .tooLong := by
  unfold limitSetting single
  dsimp only
  rw [Span.read_of_exceeds h]

theorem limitSetting_of_fits {text : String} (h : Span.Fits text) :
    ∃ span, limitSetting [text] = .setting (.limit span) := by
  obtain ⟨span, hspan, -⟩ := Span.read_of_fits h
  refine ⟨span, ?_⟩
  unfold limitSetting single
  dsimp only
  rw [hspan]

theorem limitSetting_of_neither {words : List String}
    (hfits : ¬ ∃ text, words = [text] ∧ Span.Fits text)
    (hexceeds : ¬ ∃ text, words = [text] ∧ Span.Exceeds text) :
    ∃ e, limitSetting words = .wrong e := by
  match words with
  | [] => exact ⟨_, rfl⟩
  | _ :: _ :: _ => exact ⟨_, rfl⟩
  | [text] =>
    have hread : Span.read text = .error .notPositive :=
      Span.read_of_neither (fun h => hfits ⟨text, rfl, h⟩) fun h => hexceeds ⟨text, rfl, h⟩
    refine ⟨.notPositive text, ?_⟩
    unfold limitSetting single
    dsimp only
    rw [hread]

theorem ofChars_eq_tooLong_iff : ofChars line = .tooLong ↔ SetsExceeding line := by
  constructor
  · intro h
    have hlimit : SetsLimit line := Decidable.byContradiction fun hnot => ofChars_ne_tooLong hnot h
    rw [ofChars_of_setsLimit hlimit] at h
    refine ⟨hlimit, Decidable.byContradiction fun hexceeds => ?_⟩
    by_cases hfits : ∃ text, arguments (trim line) = [text] ∧ Span.Fits text
    · obtain ⟨text, hwords, hfits⟩ := hfits
      obtain ⟨span, hspan⟩ := limitSetting_of_fits hfits
      rw [hwords, hspan] at h
      nomatch h
    · obtain ⟨e, he⟩ := limitSetting_of_neither hfits hexceeds
      nomatch h.symm.trans he
  · rintro ⟨hlimit, text, hwords, hexceeds⟩
    rw [ofChars_of_setsLimit hlimit, hwords, limitSetting_of_exceeds hexceeds]

/-- A line that sets a time limit in another way is in error. -/
theorem ofChars_eq_wrong (hlimit : SetsLimit line) (hfits : ¬ SetsFitting line)
    (hexceeds : ¬ SetsExceeding line) : ∃ e, ofChars line = .wrong e := by
  obtain ⟨e, he⟩ := limitSetting_of_neither (fun h => hfits ⟨hlimit, h⟩) fun h =>
    hexceeds ⟨hlimit, h⟩
  exact ⟨e, (ofChars_of_setsLimit hlimit).trans he⟩

end PresetLine

namespace Preset

open PresetLine

/-! ## One line among others -/

variable {front rest : List PresetLine} {e : SettingError}

/-- A line in error has one error under its number, and leaves nothing else. -/
theorem gathered_of_wrong (p : Preset) :
    let loaded := p.gathered 1 (front ++ .wrong e :: rest)
    let n := front.length + 1
    loaded.errors.filter (·.1 = n) = [(n, e)] ∧
      p.gathered 1 (front ++ .nothing :: rest) =
        { loaded with errors := loaded.errors.filter (·.1 ≠ n) } := by
  intro loaded n
  constructor
  · exact filter_number_eq front rest (.wrong e)
  · have hcleared : numbered error? 1 (front ++ .nothing :: rest) =
        loaded.errors.filter (·.1 ≠ n) := by
      rw [numbered_split]
      exact (filter_number_ne front rest (.wrong e)).symm
    have hunknown : numbered unknown? 1 (front ++ .nothing :: rest) = loaded.unknown := by
      show _ = numbered unknown? 1 (front ++ .wrong e :: rest)
      rw [numbered_split, numbered_split]
      rfl
    have hsettings : (front ++ .nothing :: rest).filterMap setting? =
        (front ++ .wrong e :: rest).filterMap setting? := by
      rw [List.filterMap_append, List.filterMap_append]
      rfl
    unfold gathered
    rw [hcleared, hunknown, hsettings]
    rfl

/-! ## Texts -/

/-- A text with these lines. -/
def ofLines (lines : List (List Char)) : String := String.ofList (lines.flatMap (· ++ ['\n']))

theorem directives_ofLines {lines : List (List Char)} (h : ∀ l ∈ lines, '\n' ∉ l) :
    directives (ofLines lines) = lines.map ofChars := by
  unfold directives ofLines
  rw [String.toList_ofList, Text.lines_flatMap_feed h]

theorem tooLong_mem_directives_iff {text : String} :
    .tooLong ∈ directives text ↔ ∃ line ∈ Text.lines text.toList, SetsExceeding line := by
  unfold directives
  rw [List.mem_map]
  simp only [ofChars_eq_tooLong_iff]

theorem load_eq_error_iff_lines {text : String} {n : Nat} :
    load text = .error ⟨n⟩ ↔ ∃ front line rest, Text.lines text.toList = front ++ line :: rest ∧
      SetsExceeding line ∧ (∀ l ∈ front, ¬ SetsExceeding l) ∧ n = front.length + 1 := by
  rw [load_eq_error_iff]
  unfold directives
  constructor
  · rintro ⟨front, rest, hsplit, hfront, rfl⟩
    obtain ⟨before, others, hlines, rfl, hothers⟩ := List.map_eq_append_iff.1 hsplit
    obtain ⟨line, after, rfl, hline, rfl⟩ := List.map_eq_cons_iff.1 hothers
    refine ⟨before, line, after, hlines, ofChars_eq_tooLong_iff.1 hline, fun l hl h => hfront ?_,
      by rw [List.length_map]⟩
    exact List.mem_map.2 ⟨l, hl, ofChars_eq_tooLong_iff.2 h⟩
  · rintro ⟨front, line, rest, hlines, hline, hfront, rfl⟩
    refine ⟨front.map ofChars, rest.map ofChars, ?_, fun h => ?_, by rw [List.length_map]⟩
    · rw [hlines, List.map_append, List.map_cons, ofChars_eq_tooLong_iff.2 hline]
    · obtain ⟨l, hl, htooLong⟩ := List.mem_map.1 h
      exact hfront l hl (ofChars_eq_tooLong_iff.1 htooLong)

/-- With a blank line in the place of one in error, a text is read as before but for that error. -/
theorem load_blank_of_wrong {text : String} {front rest : List (List Char)} {line : List Char}
    {e : SettingError} (hlines : Text.lines text.toList = front ++ line :: rest)
    (hwrong : ofChars line = .wrong e) (hmem : .tooLong ∉ directives text) :
    let loaded := none.gathered 1 (directives text)
    let n := front.length + 1
    loaded.errors.filter (·.1 = n) = [(n, e)] ∧
      load (ofLines (front ++ [] :: rest)) =
        .ok { loaded with errors := loaded.errors.filter (·.1 ≠ n) } := by
  intro loaded n
  have hdirectives : directives text = front.map ofChars ++ .wrong e :: rest.map ofChars := by
    unfold directives
    rw [hlines, List.map_append, List.map_cons, hwrong]
  have hblank : directives (ofLines (front ++ [] :: rest)) =
      front.map ofChars ++ .nothing :: rest.map ofChars := by
    have hfeeds := Text.feed_not_mem_lines text.toList
    rw [hlines, List.forall_mem_append, List.forall_mem_cons] at hfeeds
    rw [directives_ofLines, List.map_append, List.map_cons]
    · rfl
    · rw [List.forall_mem_append, List.forall_mem_cons]
      exact ⟨hfeeds.1, List.not_mem_nil, hfeeds.2.2⟩
  obtain ⟨herror, hothers⟩ := @gathered_of_wrong (front.map ofChars) (rest.map ofChars) e none
  rw [← hdirectives, ← hblank, List.length_map] at hothers
  rw [← hdirectives, List.length_map] at herror
  refine ⟨herror, (load_of_not_mem ?_).trans (congrArg Except.ok hothers)⟩
  rw [hdirectives] at hmem
  rw [hblank]
  simpa using hmem

end Preset

/-! ## The command line -/

namespace Arguments

open Runbook.Span

theorem readLimit_of_fits {text : String} (h : Fits text) :
    ∃ span, readLimit text = .ok span ∧ span.seconds < Number.pow2 64 := by
  obtain ⟨span, hspan, hseconds⟩ := read_of_fits h
  refine ⟨span, ?_, hseconds⟩
  unfold readLimit
  rw [hspan]

theorem readLimit_of_neither {text : String} (hfits : ¬ Fits text) (hexceeds : ¬ Exceeds text) :
    ∃ reason, readLimit text = .error (.refusedValue reason) := by
  unfold readLimit
  rw [read_of_neither hfits hexceeds]
  exact ⟨_, rfl⟩

theorem readLimit_eq_limitTooLong_iff {text : String} :
    readLimit text = .error .limitTooLong ↔ Exceeds text := by
  constructor
  · intro h
    refine Decidable.byContradiction fun hexceeds => ?_
    by_cases hfits : Fits text
    · obtain ⟨span, hspan, -⟩ := readLimit_of_fits hfits
      nomatch h.symm.trans hspan
    · obtain ⟨reason, hreason⟩ := readLimit_of_neither hfits hexceeds
      nomatch h.symm.trans hreason
  · intro h
    unfold readLimit
    rw [read_of_exceeds h]

end Arguments

namespace Preset

open PresetLine

/-- The reading of a text of settings ends without a result exactly at the first line whose time
limit is a positive number of seconds that exceeds a span. Without such a line the text is read, and
each line that sets a time limit without naming one such number that fits a span has exactly one
error under its number; but for that error, the text is read as if the line were blank. A time limit
of the command line is taken if it fits, and refused if it does not name a positive number; only one
that exceeds a span is neither. -/
theorem load_limits (text : String) :
    let lines := Text.lines text.toList
    (∀ n, load text = .error ⟨n⟩ ↔ ∃ front line rest, lines = front ++ line :: rest ∧
      SetsExceeding line ∧ (∀ l ∈ front, ¬ SetsExceeding l) ∧ n = front.length + 1) ∧
    ((∀ l ∈ lines, ¬ SetsExceeding l) → ∃ loaded, load text = .ok loaded ∧
      ∀ front line rest, lines = front ++ line :: rest → SetsLimit line → ¬ SetsFitting line →
        let n := front.length + 1
        ∃ e, loaded.errors.filter (·.1 = n) = [(n, e)] ∧
          load (ofLines (front ++ [] :: rest)) =
            .ok { loaded with errors := loaded.errors.filter (·.1 ≠ n) }) ∧
    (Arguments.readLimit text = .error .limitTooLong ↔ Span.Exceeds text) ∧
    (¬ Span.Exceeds text →
      (Span.Fits text ∧ ∃ span, Arguments.readLimit text = .ok span ∧
        span.seconds < Number.pow2 64) ∨
      (¬ Span.Fits text ∧ ∃ reason, Arguments.readLimit text = .error (.refusedValue reason))) := by
  intro lines
  refine ⟨fun n => load_eq_error_iff_lines, fun hlines => ?_,
    Arguments.readLimit_eq_limitTooLong_iff, fun hexceeds => ?_⟩
  · have hmem : .tooLong ∉ directives text := by
      rw [tooLong_mem_directives_iff]
      rintro ⟨line, hline, hexceeds⟩
      exact hlines line hline hexceeds
    refine ⟨_, load_of_not_mem hmem, ?_⟩
    intro front line rest hsplit hlimit hfits n
    have hexceeds : ¬ SetsExceeding line := hlines line (hsplit ▸ by simp)
    obtain ⟨e, he⟩ := ofChars_eq_wrong hlimit hfits hexceeds
    exact ⟨e, load_blank_of_wrong hsplit he hmem⟩
  · by_cases hfits : Span.Fits text
    · exact .inl ⟨hfits, Arguments.readLimit_of_fits hfits⟩
    · exact .inr ⟨hfits, Arguments.readLimit_of_neither hfits hexceeds⟩

/-- A limit of nothing, one that fits and one in two words: the first and the third are errors. -/
theorem load_limits_mixed :
    let text := "timeout 0\ntimeout 1.5\n timeout 2 3\npolicy continue"
    let lines := Text.lines text.toList
    (∀ l ∈ lines, ¬ SetsExceeding l) ∧ SetsLimit (" timeout 2 3".toList) ∧
      ¬ SetsFitting (" timeout 2 3".toList) ∧
      ∃ loaded e, load text = .ok loaded ∧ loaded.errors.filter (·.1 = 3) = [(3, e)] := by
  intro text lines
  have hlines : ∀ l ∈ lines, ¬ SetsExceeding l := by decide +kernel
  have hlimit : SetsLimit (" timeout 2 3".toList) := by decide +kernel
  have hfits : ¬ SetsFitting (" timeout 2 3".toList) := by decide +kernel
  have hsplit : lines = ["timeout 0".toList, "timeout 1.5".toList] ++
      " timeout 2 3".toList :: ["policy continue".toList] := by decide +kernel
  obtain ⟨loaded, hload, hbad⟩ := (load_limits text).2.1 hlines
  obtain ⟨e, he, -⟩ := hbad _ _ _ hsplit hlimit hfits
  exact ⟨hlines, hlimit, hfits, loaded, e, hload, he⟩

/-- A limit of `10 ^ 20` seconds is a positive number, but nothing is read with it: there is no
error of its line, and the line behind it is not read. -/
theorem load_without_result :
    load "timeout 1e20\npolicy continue" = .error ⟨1⟩ ∧
      Arguments.readLimit "1e20" = .error .limitTooLong := by
  have hexceeds : SetsExceeding "timeout 1e20".toList ∧ Span.Exceeds "1e20" := by decide +kernel
  have hlines : Text.lines "timeout 1e20\npolicy continue".toList =
      [] ++ "timeout 1e20".toList :: ["policy continue".toList] := by decide +kernel
  exact ⟨load_eq_error_iff_lines.2 ⟨_, _, _, hlines, hexceeds.1, nofun, rfl⟩,
    Arguments.readLimit_eq_limitTooLong_iff.2 hexceeds.2⟩

end Preset

end Runbook
