import Runbook.Preset
import Runbook.Proofs.Store.Listing
import Runbook.Proofs.Text.Words

/-!
# The lines of a text of settings

Each line of a text of settings contributes on its own: a setting, an error with the number of the
line, or a directive that is passed over. So what a text presets is its settings applied in order,
and its errors are those of its lines (`readLines_of_not_mem`, `load_eq_ok`). Only a time limit too
long for a span ends the reading, at the first line that has one (`load_eq_error_iff`).
-/

namespace Runbook

namespace PresetLine

/-! ## Directives -/

variable {word : List Char}

theorem directive_append (h : ∀ c ∈ word, Text.isAsciiBlank c = false) (rest : List Char) :
    directive (word ++ ' ' :: rest) = String.ofList word := by
  unfold directive
  rw [List.takeWhile_append_of_pos (by simpa using h), List.takeWhile_cons_of_neg (by decide),
    List.append_nil]

theorem arguments_append (h : ∀ c ∈ word, Text.isAsciiBlank c = false) (rest : List Char) :
    arguments (word ++ ' ' :: rest) = Text.words (Text.trim rest) := by
  unfold arguments
  rw [List.dropWhile_append_of_pos (by simpa using h), List.dropWhile_cons_of_neg (by decide)]
  rfl

/-- A line of a directive and its arguments says what the directive says with their words. -/
theorem ofChars_directive (hword : word.any Text.isBlank = false) (hne : word ≠ [])
    (hcomment : word.head? ≠ some ';') {rest : List Char} (hrest : Text.Trimmed rest)
    (hrestne : rest ≠ []) :
    ofChars (word ++ ' ' :: rest) = ofArguments (String.ofList word) (Text.words rest) := by
  have hblank : ∀ c ∈ word, Text.isBlank c = false := by simpa using hword
  have htrimmed : Text.Trimmed word :=
    ⟨fun c hc => hblank c (List.mem_of_head? hc), fun c hc => hblank c (List.mem_of_getLast? hc)⟩
  have hline := (htrimmed.append hrest hne hrestne [' ']).trim_eq
  have hletters : ∀ c ∈ word, Text.isAsciiBlank c = false :=
    fun c hc => Text.isAsciiBlank_eq_false (hblank c hc)
  obtain ⟨c, cs, rfl⟩ := List.exists_cons_of_ne_nil hne
  unfold ofChars
  rw [List.singleton_append] at hline
  rw [hline]
  dsimp only [List.cons_append]
  rw [if_neg fun hc => hcomment (congrArg some hc), ← List.cons_append]
  unfold ofDirective
  rw [directive_append hletters, arguments_append hletters, hrest.trim_eq]

theorem ofSetting_ne_tooLong (r : Except SettingError Setting) : ofSetting r ≠ .tooLong := by
  cases r <;> exact nofun

/-! ## What a line contributes -/

/-- The setting of a line that has one. -/
def setting? : PresetLine → Option Setting
  | .setting s => some s
  | _ => none

/-- The error of a line that is wrong. -/
def error? : PresetLine → Option SettingError
  | .wrong e => some e
  | _ => none

/-- The directive of a line that is passed over. -/
def unknown? : PresetLine → Option String
  | .unknown directive => some directive
  | _ => none

/-- What is found in lines, each with its number; the first line has the given one. -/
def numbered {α : Type} (find : PresetLine → Option α) (line : Nat) (lines : List PresetLine) :
    List (Nat × α) :=
  (lines.zipIdx line).filterMap fun l => (find l.1).map (l.2, ·)

variable {α : Type} {find : PresetLine → Option α} {line : Nat} {l : PresetLine}
  {lines : List PresetLine}

theorem numbered_cons_of_none (h : find l = none) :
    numbered find line (l :: lines) = numbered find (line + 1) lines := by
  unfold numbered
  rw [List.zipIdx_cons, List.filterMap_cons]
  dsimp only
  rw [h]
  rfl

theorem numbered_cons_of_some {a : α} (h : find l = some a) :
    numbered find line (l :: lines) = (line, a) :: numbered find (line + 1) lines := by
  unfold numbered
  rw [List.zipIdx_cons, List.filterMap_cons]
  dsimp only
  rw [h]
  rfl

theorem numbered_of_forall_none (h : ∀ l ∈ lines, find l = none) :
    numbered find line lines = [] := by
  induction lines generalizing line with
  | nil => rfl
  | cons l lines ih =>
    obtain ⟨hl, hlines⟩ := List.forall_mem_cons.1 h
    rw [numbered_cons_of_none hl, ih hlines]

theorem numbered_append (find : PresetLine → Option α) (line : Nat) (xs ys : List PresetLine) :
    numbered find line (xs ++ ys) =
      numbered find line xs ++ numbered find (line + xs.length) ys := by
  unfold numbered
  rw [List.zipIdx_append, List.filterMap_append]

/-- So many lines further down the numbers are so much greater. -/
theorem numbered_add (find : PresetLine → Option α) (line further : Nat)
    (lines : List PresetLine) : numbered find (line + further) lines =
      (numbered find line lines).map fun n => (n.1 + further, n.2) := by
  induction lines generalizing line with
  | nil => rfl
  | cons l lines ih =>
    have hnext : line + further + 1 = line + 1 + further := by omega
    cases h : find l with
    | none => rw [numbered_cons_of_none h, numbered_cons_of_none h, hnext, ih]
    | some a => rw [numbered_cons_of_some h, numbered_cons_of_some h, hnext, ih, List.map_cons]

theorem mem_numbers_iff {n : Nat} (h : (l, n) ∈ lines.zipIdx line) :
    n ∈ (numbered find line lines).map (·.1) ↔ find l ≠ none := by
  simp only [List.mem_map, numbered, List.mem_filterMap, Option.map_eq_some_iff]
  rw [Option.ne_none_iff_exists']
  constructor
  · rintro ⟨_, ⟨⟨other, i⟩, hother, a, ha, rfl⟩, rfl⟩
    -- One number belongs to one line.
    rw [List.mk_mem_zipIdx_iff_le_and_getElem?_sub] at h hother
    obtain rfl := Option.some.inj (h.2.symm.trans hother.2)
    exact ⟨a, ha⟩
  · rintro ⟨a, ha⟩
    exact ⟨(n, a), ⟨(l, n), h, a, ha, rfl⟩, rfl⟩

/-- What is found in lines has their numbers. -/
theorem number_of_mem_numbered {p : Nat × α} (h : p ∈ numbered find line lines) :
    line ≤ p.1 ∧ p.1 < line + lines.length := by
  obtain ⟨⟨l, i⟩, hl, hp⟩ := List.mem_filterMap.1 h
  obtain ⟨a, -, rfl⟩ := Option.map_eq_some_iff.1 hp
  obtain ⟨hfrom, hto, -⟩ := List.mem_zipIdx hl
  exact ⟨hfrom, hto⟩

section Middle

variable (front rest : List PresetLine) (l : PresetLine)

/-- What is found in lines, by a line in their middle. -/
theorem numbered_split : numbered find 1 (front ++ l :: rest) =
    numbered find 1 front ++ ((find l).toList.map (front.length + 1, ·) ++
      (numbered find (front.length + 1) rest).map fun found => (found.1 + 1, found.2)) := by
  rw [numbered_append, Nat.add_comm 1, ← numbered_add]
  cases h : find l with
  | none =>
    rw [numbered_cons_of_none h]
    rfl
  | some a =>
    rw [numbered_cons_of_some h]
    rfl

theorem number_lt_of_mem {front : List PresetLine} {found : Nat × α}
    (h : found ∈ numbered find 1 front) : found.1 < front.length + 1 := by
  have := number_of_mem_numbered h
  omega

/-- What is found under the number of a line is found in this line. -/
theorem filter_number_eq :
    (numbered find 1 (front ++ l :: rest)).filter (·.1 = front.length + 1) =
      (find l).toList.map (front.length + 1, ·) := by
  rw [numbered_split, List.filter_append, List.filter_append, List.filter_eq_nil_iff.2,
    List.filter_eq_self.2, List.filter_eq_nil_iff.2, List.nil_append, List.append_nil]
  · intro found hfound
    obtain ⟨below, hbelow, rfl⟩ := List.mem_map.1 hfound
    have := (number_of_mem_numbered hbelow).1
    simp only [decide_eq_true_eq]
    omega
  · intro found hfound
    obtain ⟨a, -, rfl⟩ := List.mem_map.1 hfound
    exact decide_eq_true rfl
  · intro found hfound
    have := number_lt_of_mem hfound
    simp only [decide_eq_true_eq]
    omega

theorem filter_number_ne :
    (numbered find 1 (front ++ l :: rest)).filter (·.1 ≠ front.length + 1) =
      numbered find 1 front ++
        (numbered find (front.length + 1) rest).map fun found => (found.1 + 1, found.2) := by
  rw [numbered_split, List.filter_append, List.filter_append, List.filter_eq_self.2,
    List.filter_eq_nil_iff.2, List.filter_eq_self.2, List.nil_append]
  · intro found hfound
    obtain ⟨below, hbelow, rfl⟩ := List.mem_map.1 hfound
    have := (number_of_mem_numbered hbelow).1
    simp only [decide_eq_true_eq]
    omega
  · intro found hfound
    obtain ⟨a, -, rfl⟩ := List.mem_map.1 hfound
    simp
  · intro found hfound
    have := number_lt_of_mem hfound
    simp only [decide_eq_true_eq]
    omega

end Middle

end PresetLine

namespace Preset

open PresetLine

/-! ## Settings in order -/

/-- Takes up settings one after the other. -/
def applyAll (p : Preset) (settings : List Setting) : Preset := settings.foldl apply p

/-- What is read of lines none of which ends the reading. -/
def gathered (p : Preset) (line : Nat) (lines : List PresetLine) : Loaded :=
  ⟨p.applyAll (lines.filterMap setting?), numbered error? line lines, numbered unknown? line lines⟩

variable {p : Preset} {line : Nat} {lines : List PresetLine}

theorem readLines_of_not_mem (h : .tooLong ∉ lines) :
    p.readLines line lines = .ok (p.gathered line lines) := by
  induction lines generalizing p line with
  | nil => rfl
  | cons l lines ih =>
    rw [List.mem_cons, not_or] at h
    cases l with
    | nothing =>
      rw [readLines, ih h.2]
      rfl
    | unknown directive =>
      rw [readLines, ih h.2]
      rfl
    | wrong e =>
      rw [readLines, ih h.2]
      rfl
    | setting setting =>
      rw [readLines, ih h.2]
      rfl
    | tooLong => exact absurd rfl h.1

theorem readLines_of_tooLong {front : List PresetLine} (h : .tooLong ∉ front)
    (rest : List PresetLine) :
    p.readLines line (front ++ .tooLong :: rest) = .error ⟨line + front.length⟩ := by
  induction front generalizing p line with
  | nil => rfl
  | cons l front ih =>
    rw [List.mem_cons, not_or] at h
    have hrest : ∀ p : Preset, p.readLines (line + 1) (front ++ .tooLong :: rest) =
        .error ⟨line + (front.length + 1)⟩ := by
      intro p
      rw [ih h.2]
      simp only [Except.error.injEq, Overflow.mk.injEq]
      omega
    rw [List.cons_append, List.length_cons]
    cases l with
    | nothing => exact hrest p
    | unknown directive =>
      rw [readLines, hrest]
      rfl
    | wrong e =>
      rw [readLines, hrest]
      rfl
    | setting setting => exact hrest _
    | tooLong => exact absurd rfl h.1

/-! ## Texts -/

/-- What the lines of a text say. -/
def directives (text : String) : List PresetLine := (Text.lines text.toList).map PresetLine.ofChars

variable {text : String}

theorem load_eq (text : String) : load text = none.readLines 1 (directives text) := rfl

theorem load_of_not_mem (h : .tooLong ∉ directives text) :
    load text = .ok (none.gathered 1 (directives text)) :=
  readLines_of_not_mem h

theorem load_eq_ok {loaded : Loaded} (h : load text = .ok loaded) :
    .tooLong ∉ directives text ∧ loaded = none.gathered 1 (directives text) := by
  by_cases hmem : .tooLong ∈ directives text
  · obtain ⟨front, rest, hsplit, hfront⟩ := List.eq_append_cons_of_mem hmem
    rw [load_eq, hsplit, readLines_of_tooLong hfront] at h
    nomatch h
  · exact ⟨hmem, Except.ok.inj (h.symm.trans (load_of_not_mem hmem))⟩

/-- A text of one line. -/
theorem load_line (hfeed : '\n' ∉ text.toList) (hne : text ≠ "")
    (hline : ofChars text.toList ≠ .tooLong) :
    load text = .ok (none.gathered 1 [ofChars text.toList]) := by
  have hdirectives : directives text = [ofChars text.toList] := by
    unfold directives
    rw [Text.lines_of_not_mem hfeed (by simpa using hne), List.map_singleton]
  rw [load_of_not_mem (by rw [hdirectives]; simpa using hline.symm), hdirectives]

/-- The reading ends at the first line whose time limit is too long, and at no other. -/
theorem load_eq_error_iff {n : Nat} :
    load text = .error ⟨n⟩ ↔ ∃ front rest,
      directives text = front ++ .tooLong :: rest ∧ .tooLong ∉ front ∧ n = front.length + 1 := by
  constructor
  · intro h
    by_cases hmem : .tooLong ∈ directives text
    · obtain ⟨front, rest, hsplit, hfront⟩ := List.eq_append_cons_of_mem hmem
      rw [load_eq, hsplit, readLines_of_tooLong hfront, Except.error.injEq, Overflow.mk.injEq] at h
      exact ⟨front, rest, hsplit, hfront, by omega⟩
    · nomatch h.symm.trans (load_of_not_mem hmem)
  · rintro ⟨front, rest, hsplit, hfront, rfl⟩
    rw [load_eq, hsplit, readLines_of_tooLong hfront, Nat.add_comm]

end Preset

/-! ## What settings come to -/

/-- The policy that a setting sets, if it sets one. -/
def Setting.policy? : Setting → Option Policy
  | .policy p => some p
  | _ => none

/-- The time limit that a setting sets, if it sets one. -/
def Setting.limit? : Setting → Option Span
  | .limit span => some span
  | _ => none

/-- The variable that a setting sets. -/
def Setting.variable? : Setting → Option (String × Value)
  | .variable name value => some (name, .text value)
  | _ => none

theorem getLast?_cons_or {α : Type} (a : α) (l : List α) (b : Option α) :
    (a :: l).getLast?.or b = l.getLast?.or (some a) := by
  rw [List.getLast?_cons]
  cases l.getLast? <;> rfl

namespace Preset

variable (p : Preset) (settings : List Setting)

/-- Of settings applied in order the last policy holds. -/
theorem policy_applyAll :
    (p.applyAll settings).policy = (settings.filterMap Setting.policy?).getLast?.or p.policy := by
  induction settings generalizing p with
  | nil => rfl
  | cons s settings ih =>
    show ((p.apply s).applyAll settings).policy = _
    rw [ih]
    cases s with
    | policy policy => exact (getLast?_cons_or policy _ p.policy).symm
    | limit _ => rfl
    | log _ => rfl
    | «variable» name value => rfl

/-- Of settings applied in order the last time limit holds. -/
theorem limit_applyAll :
    (p.applyAll settings).limit = (settings.filterMap Setting.limit?).getLast?.or p.limit := by
  induction settings generalizing p with
  | nil => rfl
  | cons s settings ih =>
    show ((p.apply s).applyAll settings).limit = _
    rw [ih]
    cases s with
    | policy _ => rfl
    | limit span => exact (getLast?_cons_or span _ p.limit).symm
    | log _ => rfl
    | «variable» name value => rfl

/-- The variables of settings applied in order are set in that order. -/
theorem store_applyAll :
    (p.applyAll settings).store = p.store.setAll (settings.filterMap Setting.variable?) := by
  induction settings generalizing p with
  | nil => rfl
  | cons s settings ih =>
    show ((p.apply s).applyAll settings).store = _
    rw [ih]
    cases s <;> rfl

/-- The settings of the lines of a text. -/
def settingsOf (text : String) : List Setting := (directives text).filterMap PresetLine.setting?

end Preset

end Runbook
