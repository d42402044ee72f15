import Runbook.Proofs.Preset.Lines
import Runbook.Proofs.Text.Words

/-!
# Presets laid over one another

A text of settings under another with a line feed between them presets what the second presets, laid
over what the first does: its policy, time limit and log filter hold where it sets them, and its
variables are set on top. The errors of both are kept, those of the second under the numbers that
its lines have further down. So each line contributes on its own, and one that sets nothing can be
taken out: a blank line, a comment, a line whose first word is no setting, or a line in error, which
takes its error along (`load_by_lines`).
-/

namespace Runbook

namespace PresetLine

/-! ## Lines that set nothing -/

/-- A blank line, a comment, or a line whose first word is no setting. -/
def IsIdle (line : List Char) : Prop :=
  Text.trim line = [] ∨ (Text.trim line).head? = some ';' ∨
    directive (Text.trim line) ∉ ["policy", "timeout", "log", "set"]

instance (line : List Char) : Decidable (IsIdle line) := inferInstanceAs (Decidable (_ ∨ _ ∨ _))

theorem ofArguments_of_not_mem {word : String} (h : word ∉ ["policy", "timeout", "log", "set"])
    (words : List String) : ofArguments word words = .unknown word := by
  unfold ofArguments
  split
  · simp at h
  · simp at h
  · simp at h
  · simp at h
  · rfl

theorem ofChars_of_isIdle {line : List Char} (h : IsIdle line) :
    ofChars line = .nothing ∨ ∃ word, ofChars line = .unknown word := by
  unfold IsIdle at h
  unfold ofChars
  split
  · exact .inl rfl
  · rename_i c cs htrim
    rw [htrim] at h
    split
    · exact .inl rfl
    · rename_i hcomment
      have hword : directive (c :: cs) ∉ ["policy", "timeout", "log", "set"] := by
        rcases h with h | h | h
        · exact absurd h (List.cons_ne_nil _ _)
        · exact absurd (Option.some.inj h) hcomment
        · exact h
      exact .inr ⟨_, ofArguments_of_not_mem hword _⟩

variable {l : PresetLine}

theorem setting?_of_error? (h : error? l ≠ none) : setting? l = none := by
  cases l with
  | setting _ => exact absurd rfl h
  | nothing => rfl
  | unknown _ => rfl
  | wrong _ => rfl
  | tooLong => rfl

theorem silent_of_isIdle {line : List Char} (h : IsIdle line) :
    setting? (ofChars line) = none ∧ error? (ofChars line) = none := by
  rcases ofChars_of_isIdle h with h | ⟨word, h⟩
  · rw [h]
    exact ⟨rfl, rfl⟩
  · rw [h]
    exact ⟨rfl, rfl⟩

/-! ## Taking a line out -/

section TakenOut

variable {α : Type} {find : PresetLine → Option α} {n : Nat} {found : Nat × α}

/-- A finding under the number that its line has once line `n` is taken out. -/
def closeUp (n : Nat) (found : Nat × α) : Nat × α :=
  (if n < found.1 then found.1 - 1 else found.1, found.2)

theorem closeUp_of_lt (h : found.1 < n) : closeUp n found = found := by
  unfold closeUp
  rw [if_neg (by omega)]

theorem closeUp_of_le (h : n ≤ found.1) : closeUp n (found.1 + 1, found.2) = found := by
  unfold closeUp
  rw [if_pos (Nat.lt_succ_of_le h), Nat.add_sub_cancel]

variable (front rest : List PresetLine) (l : PresetLine)

/-- With a line taken out, what is found in the others is found under closed-up numbers. -/
theorem numbered_without : numbered find 1 (front ++ rest) =
    ((numbered find 1 (front ++ l :: rest)).filter (·.1 ≠ front.length + 1)).map
      (closeUp (front.length + 1)) := by
  have hfront : (numbered find 1 front).map (closeUp (front.length + 1)) =
      numbered find 1 front := by
    have hsame := fun found h => closeUp_of_lt (@number_lt_of_mem _ find front found h)
    exact (List.map_congr_left hsame).trans (List.map_id _)
  have hrest : ((numbered find (front.length + 1) rest).map fun found =>
      (found.1 + 1, found.2)).map (closeUp (front.length + 1)) =
        numbered find (front.length + 1) rest := by
    have hsame := fun found h =>
      closeUp_of_le (@number_of_mem_numbered _ find (front.length + 1) rest found h).1
    rw [List.map_map]
    exact (List.map_congr_left hsame).trans (List.map_id _)
  rw [filter_number_ne, List.map_append, hfront, hrest, numbered_append, Nat.add_comm 1]

end TakenOut

/-- The lines whose numbers are not given. -/
def leavingOut (numbers : List Nat) (lines : List (List Char)) : List (List Char) :=
  ((lines.zipIdx 1).filter fun l => l.2 ∉ numbers).map (·.1)

/-- To leave out the lines under whose numbers something is found is to keep those in which nothing
is. -/
theorem leavingOut_numbers {α : Type} (find : PresetLine → Option α) (lines : List (List Char)) :
    leavingOut ((numbered find 1 (lines.map ofChars)).map (·.1)) lines =
      lines.filter fun line => (find (ofChars line)).isNone := by
  have hkept : ∀ l ∈ lines.zipIdx 1,
      decide (l.2 ∉ (numbered find 1 (lines.map ofChars)).map (·.1)) =
        (find (ofChars l.1)).isNone := by
    intro l hl
    have hmap : (ofChars l.1, l.2) ∈ (lines.map ofChars).zipIdx 1 := by
      rw [List.zipIdx_map]
      exact List.mem_map_of_mem hl
    rw [Bool.eq_iff_iff, decide_eq_true_iff, mem_numbers_iff hmap, ne_eq, Classical.not_not,
      Option.isNone_iff_eq_none]
  unfold leavingOut
  rw [List.filter_congr hkept]
  conv => rhs; rw [← List.zipIdx_map_fst 1 lines, List.filter_map]
  rfl

end PresetLine

namespace Preset

open PresetLine

/-! ## Laying one preset over another -/

/-- What the second preset sets holds, and its variables are set on top. -/
def overlay (p q : Preset) : Preset :=
  ⟨q.policy.or p.policy, q.limit.or p.limit, q.log.or p.log, p.store.setAll q.store.toList⟩

variable (p q : Preset)

theorem overlay_none : p.overlay none = p := rfl

/-- One more setting of the preset on top is one more setting of the whole. -/
theorem overlay_apply (s : Setting) : p.overlay (q.apply s) = (p.overlay q).apply s := by
  cases s with
  | policy policy => rfl
  | limit span => rfl
  | log filter => rfl
  | «variable» name value =>
    show (⟨_, _, _, p.store.setAll (q.store.set name (.text value)).toList⟩ : Preset) = _
    rw [p.store.setAll_toList_set]
    rfl

theorem overlay_applyAll (settings : List Setting) :
    p.overlay (q.applyAll settings) = (p.overlay q).applyAll settings := by
  induction settings generalizing q with
  | nil => rfl
  | cons s settings ih =>
    show p.overlay ((q.apply s).applyAll settings) = ((p.overlay q).apply s).applyAll settings
    rw [ih, overlay_apply]

theorem applyAll_append (xs ys : List Setting) :
    none.applyAll (xs ++ ys) = (none.applyAll xs).overlay (none.applyAll ys) := by
  rw [overlay_applyAll, overlay_none]
  exact List.foldl_append

/-! ## One text under another -/

theorem directives_append (s t : String) :
    ∃ gap, directives (s ++ "\n" ++ t) = directives s ++ (gap ++ directives t) ∧
      (∀ l ∈ gap, l = .nothing) ∧
      (directives s).length + gap.length = s.toList.count '\n' + 1 := by
  obtain ⟨gap, hlines, hgap, hlength⟩ := Text.exists_lines_append_feed s.toList t.toList
  have htext : (s ++ "\n" ++ t).toList = s.toList ++ '\n' :: t.toList := by simp
  refine ⟨gap.map ofChars, ?_, ?_, ?_⟩
  · unfold directives
    rw [htext, hlines, List.map_append, List.map_append]
  · intro l hl
    obtain ⟨line, hline, rfl⟩ := List.mem_map.1 hl
    rw [hgap line hline]
    rfl
  · unfold directives
    rw [List.length_map, List.length_map, hlength]

/-- What is found in a text under another is found so many lines further down. -/
theorem numbered_directives_append {α : Type} {find : PresetLine → Option α}
    (hnothing : find .nothing = Option.none) (s t : String) :
    numbered find 1 (directives (s ++ "\n" ++ t)) = numbered find 1 (directives s) ++
      (numbered find 1 (directives t)).map fun found =>
        (found.1 + (s.toList.count '\n' + 1), found.2) := by
  obtain ⟨gap, hdirectives, hgap, hlength⟩ := directives_append s t
  have hnone : numbered find (1 + (directives s).length) gap = [] :=
    numbered_of_forall_none fun l hl => hgap l hl ▸ hnothing
  rw [hdirectives, numbered_append, numbered_append, hnone, List.nil_append, Nat.add_assoc, hlength,
    numbered_add]

theorem settings_directives_append (s t : String) :
    (directives (s ++ "\n" ++ t)).filterMap setting? =
      (directives s).filterMap setting? ++ (directives t).filterMap setting? := by
  obtain ⟨gap, hdirectives, hgap, -⟩ := directives_append s t
  have hnone : gap.filterMap setting? = [] :=
    List.filterMap_eq_nil_iff.2 fun l hl => hgap l hl ▸ rfl
  rw [hdirectives, List.filterMap_append, List.filterMap_append, hnone, List.nil_append]

theorem tooLong_not_mem_append {s t : String} (hs : .tooLong ∉ directives s)
    (ht : .tooLong ∉ directives t) : .tooLong ∉ directives (s ++ "\n" ++ t) := by
  obtain ⟨gap, hdirectives, hgap, -⟩ := directives_append s t
  rw [hdirectives, List.mem_append, List.mem_append, not_or, not_or]
  exact ⟨hs, fun h => (nomatch hgap _ h), ht⟩

theorem load_append {s t : String} {a b : Loaded} (hs : load s = .ok a) (ht : load t = .ok b) :
    let further := s.toList.count '\n' + 1
    load (s ++ "\n" ++ t) = .ok
      ⟨a.preset.overlay b.preset, a.errors ++ b.errors.map fun e => (e.1 + further, e.2),
        a.unknown ++ b.unknown.map fun u => (u.1 + further, u.2)⟩ := by
  intro further
  obtain ⟨hsReads, rfl⟩ := load_eq_ok hs
  obtain ⟨htReads, rfl⟩ := load_eq_ok ht
  rw [load_of_not_mem (tooLong_not_mem_append hsReads htReads)]
  unfold gathered
  rw [settings_directives_append, applyAll_append, numbered_directives_append rfl,
    numbered_directives_append rfl]

/-! ## Texts with fewer lines -/

/-- A text whose lines are some of those of another, and leave out none that sets anything, presets
the same. -/
theorem load_of_sublist {s text : String} {a : Loaded} (hs : load s = .ok a)
    (hlines : (directives text).Sublist (directives s))
    (hsettings : (directives text).filterMap setting? = (directives s).filterMap setting?) :
    ∃ loaded, load text = .ok loaded ∧ loaded.preset = a.preset ∧
      loaded.errors = numbered error? 1 (directives text) := by
  obtain ⟨hreads, rfl⟩ := load_eq_ok hs
  refine ⟨_, load_of_not_mem fun h => hreads (hlines.subset h), ?_, rfl⟩
  unfold gathered
  rw [hsettings]

/-- A line that sets nothing can be taken out of a text; an error that it has goes with it. -/
theorem load_without {s : String} {a : Loaded} (hs : load s = .ok a)
    {front rest : List (List Char)} {line : List Char}
    (hlines : Text.lines s.toList = front ++ line :: rest)
    (hsetting : setting? (ofChars line) = Option.none) {text : String}
    (htext : Text.lines text.toList = front ++ rest) :
    ∃ loaded, load text = .ok loaded ∧ loaded.preset = a.preset ∧
      loaded.errors = (a.errors.filter (·.1 ≠ front.length + 1)).map (closeUp (front.length + 1)) := by
  have hs' : directives s = front.map ofChars ++ ofChars line :: rest.map ofChars := by
    unfold directives
    rw [hlines, List.map_append, List.map_cons]
  have htext' : directives text = front.map ofChars ++ rest.map ofChars := by
    unfold directives
    rw [htext, List.map_append]
  obtain ⟨loaded, hload, hpreset, herrors⟩ : ∃ loaded, load text = .ok loaded ∧
      loaded.preset = a.preset ∧ loaded.errors = numbered error? 1 (directives text) := by
    refine load_of_sublist hs ?_ ?_
    · rw [hs', htext']
      exact (List.sublist_cons_self _ _).append_left _
    · rw [hs', htext', List.filterMap_append, List.filterMap_append,
        List.filterMap_cons_none hsetting]
  refine ⟨loaded, hload, hpreset, ?_⟩
  obtain ⟨-, rfl⟩ := load_eq_ok hs
  show loaded.errors = ((numbered error? 1 (directives s)).filter _).map _
  rw [herrors, htext', hs', ← List.length_map ofChars]
  exact numbered_without _ _ _

/-- With all lines in error left out, a text presets the same and has no errors. -/
theorem load_leavingOut {s : String} {a : Loaded} (hs : load s = .ok a) {text : String}
    (htext : Text.lines text.toList = leavingOut (a.errors.map (·.1)) (Text.lines s.toList)) :
    ∃ loaded, load text = .ok loaded ∧ loaded.preset = a.preset ∧ loaded.errors = [] := by
  have hkept : Text.lines text.toList =
      (Text.lines s.toList).filter fun line => (error? (ofChars line)).isNone := by
    obtain ⟨-, rfl⟩ := load_eq_ok hs
    rw [htext]
    exact leavingOut_numbers error? _
  have hdirectives : directives text = (directives s).filter fun l => (error? l).isNone := by
    unfold directives
    rw [hkept, List.filter_map]
    rfl
  have hsettings : (directives text).filterMap setting? = (directives s).filterMap setting? := by
    rw [hdirectives, List.filterMap_filter]
    congr 1
    funext l
    split
    · rfl
    · rename_i hwrong
      exact (setting?_of_error? (by simpa using hwrong)).symm
  obtain ⟨loaded, hload, hpreset, herrors⟩ :=
    load_of_sublist hs (hdirectives ▸ List.filter_sublist) hsettings
  refine ⟨loaded, hload, hpreset, herrors.trans (numbered_of_forall_none fun l hl => ?_)⟩
  rw [hdirectives, List.mem_filter, Option.isNone_iff_eq_none] at hl
  exact hl.2

/-- The errors of a text under the number of a line are those of the line. -/
theorem errors_of_line {s : String} {a : Loaded} (hs : load s = .ok a)
    {front rest : List (List Char)} {line : List Char}
    (hlines : Text.lines s.toList = front ++ line :: rest) :
    a.errors.filter (·.1 = front.length + 1) =
      (error? (ofChars line)).toList.map (front.length + 1, ·) := by
  obtain ⟨-, rfl⟩ := load_eq_ok hs
  show (numbered error? 1 (directives s)).filter _ = _
  unfold directives
  rw [hlines, List.map_append, List.map_cons, ← List.length_map ofChars]
  exact filter_number_eq _ _ _

/-- A text of settings under another, with a line feed between them, presets what the second sets
and otherwise what the first does, with the variables of the second set on top of those of the
first, and it has the errors of both, those of the second so many lines further down. So of one
text, a blank line, a comment or a line whose first word is no setting has no error, a line has at
most one error, and either, taken out, leaves all as it was but for that error and for the numbers
of the lines behind; and with all lines in error left out the text presets the same and has no
errors. -/
theorem load_by_lines {s t : String} {a b : Loaded} (hs : load s = .ok a) (ht : load t = .ok b) :
    let further := s.toList.count '\n' + 1
    let lines := Text.lines s.toList
    (∃ loaded, load (s ++ "\n" ++ t) = .ok loaded ∧
      loaded.preset.policy = b.preset.policy.or a.preset.policy ∧
      loaded.preset.limit = b.preset.limit.or a.preset.limit ∧
      loaded.preset.log = b.preset.log.or a.preset.log ∧
      loaded.preset.store = a.preset.store.setAll b.preset.store.toList ∧
      loaded.errors = a.errors ++ b.errors.map fun e => (e.1 + further, e.2)) ∧
    (∀ front line rest, lines = front ++ line :: rest →
      let n := front.length + 1
      let own := a.errors.filter (·.1 = n)
      (IsIdle line → own = []) ∧ own.length ≤ 1 ∧
      (IsIdle line ∨ own ≠ [] → ∀ text, Text.lines text.toList = front ++ rest →
        ∃ loaded, load text = .ok loaded ∧ loaded.preset = a.preset ∧
          loaded.errors = (a.errors.filter (·.1 ≠ n)).map (closeUp n))) ∧
    (∀ text, Text.lines text.toList = leavingOut (a.errors.map (·.1)) lines →
      ∃ loaded, load text = .ok loaded ∧ loaded.preset = a.preset ∧ loaded.errors = []) := by
  intro further lines
  refine ⟨⟨_, load_append hs ht, rfl, rfl, rfl, rfl, rfl⟩, ?_, fun _ => load_leavingOut hs⟩
  intro front line rest hlines n own
  have hown : own = (error? (ofChars line)).toList.map (n, ·) := errors_of_line hs hlines
  refine ⟨fun hidle => ?_, ?_, fun hnothing text => load_without hs hlines ?_⟩
  · rw [hown, (silent_of_isIdle hidle).2]
    rfl
  · rw [hown, List.length_map]
    cases error? (ofChars line) with
    | none => exact Nat.zero_le 1
    | some e => exact Nat.le_refl 1
  · rcases hnothing with hidle | hwrong
    · exact (silent_of_isIdle hidle).1
    · refine setting?_of_error? fun hnone => hwrong ?_
      rw [hown, hnone]
      rfl

/-- The text below sets a variable of the one above anew, and both have a line in error. -/
theorem load_by_lines_overwriting :
    let s := "policy abort\nset a 1\nset lonely\n; x\ncolour always\nset c 2"
    let t := "timeout 2\nset b 3\n set a=4\npolicy sometimes"
    ∃ a b, load s = .ok a ∧ load t = .ok b ∧
      (∃ loaded, load (s ++ "\n" ++ t) = .ok loaded ∧ loaded.preset.policy = some .abort ∧
        loaded.preset.limit = some ⟨2000000000⟩ ∧
        loaded.preset.store.toList =
          [("a", .text "4"), ("c", .text "2"), ("b", .text "3")] ∧
        loaded.errors = [(3, .missingValue "lonely"), (10, .unknownPolicy "sometimes")]) ∧
      ∃ cleared, load "policy abort\nset a 1\n; x\ncolour always\nset c 2" = .ok cleared ∧
        cleared.preset = a.preset ∧ cleared.errors = [] := by
  intro s t
  let a := none.gathered 1 [.setting (.policy .abort), .setting (.variable "a" "1"),
    .wrong (.missingValue "lonely"), .nothing, .unknown "colour", .setting (.variable "c" "2")]
  let b := none.gathered 1 [.setting (.limit ⟨2000000000⟩), .setting (.variable "b" "3"),
    .setting (.variable "a" "4"), .wrong (.unknownPolicy "sometimes")]
  have hs : load s = .ok a := by
    rw [load_of_not_mem (by decide +kernel)]
    exact congrArg (Except.ok <| none.gathered 1 ·) (by decide +kernel)
  have ht : load t = .ok b := by
    rw [load_of_not_mem (by decide +kernel)]
    exact congrArg (Except.ok <| none.gathered 1 ·) (by decide +kernel)
  obtain ⟨⟨loaded, hload, hpolicy, hlimit, -, hstore, herrors⟩, -, hcleared⟩ := load_by_lines hs ht
  refine ⟨a, b, hs, ht, ⟨loaded, hload, hpolicy, hlimit, ?_, ?_⟩, hcleared _ ?_⟩
  · rw [hstore]
    decide +kernel
  · rw [herrors]
    decide +kernel
  · decide +kernel

end Preset

end Runbook
