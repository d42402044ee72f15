import Runbook.Text.Words

/-!
# Lines and words that have been written

The lines of a text have no line feeds in them (`feed_not_mem_lines`), and such lines are read as
they are when they are written one under the other (`lines_flatMap_feed`, `lines_intercalate_feed`).
The lines of two texts with a line feed between them are the lines of the one and those of the other
(`exists_lines_append_feed`). A text written between quotes is one word, whatever its characters are
(`words_quoted`), and two such texts with a blank between them are two words
(`words_quoted_quoted`). Letters with a blank behind them are a word as well (`words_letters_blank`);
without the blank they belong to the first word of what follows (`words_letters_append`).
-/

namespace Runbook

namespace Text

/-! ## Lines -/

theorem lines_append_feed {l : List Char} (h : '\n' ∉ l) (cs : List Char) :
    lines (l ++ '\n' :: cs) = l :: lines cs := by
  induction l with
  | nil => rw [List.nil_append, lines, if_pos rfl]
  | cons c l ih =>
    rw [List.mem_cons, not_or] at h
    rw [List.cons_append, lines, if_neg (Ne.symm h.1), ih h.2]

theorem lines_cons_of_ne {c : Char} (h : c ≠ '\n') {cs l : List Char} {ls : List (List Char)}
    (hlines : lines cs = l :: ls) : lines (c :: cs) = (c :: l) :: ls := by
  rw [lines, if_neg h, hlines]

/-- The lines on the two sides of a line feed. Those before it are as many as it has line feeds
before it and itself, so there is one more, without characters, where it stands behind another line
feed or at the front. -/
theorem exists_lines_append_feed (xs ys : List Char) :
    ∃ gap, lines (xs ++ '\n' :: ys) = lines xs ++ (gap ++ lines ys) ∧ (∀ l ∈ gap, l = []) ∧
      (lines xs).length + gap.length = xs.count '\n' + 1 := by
  induction xs with
  | nil => exact ⟨[[]], lines_append_feed List.not_mem_nil ys, by simp, rfl⟩
  | cons c xs ih =>
    obtain ⟨gap, hlines, hgap, hlength⟩ := ih
    by_cases hc : c = '\n'
    · refine ⟨gap, ?_, hgap, ?_⟩
      · rw [List.cons_append, lines, lines, if_pos hc, if_pos hc, hlines, List.cons_append]
      · rw [lines, if_pos hc, hc, List.count_cons_self, List.length_cons]
        omega
    · rw [List.count_cons_of_ne hc]
      cases hxs : lines xs with
      | cons l ls =>
        rw [hxs] at hlines hlength
        refine ⟨gap, ?_, hgap, ?_⟩
        · rw [List.cons_append, lines_cons_of_ne hc hlines, lines_cons_of_ne hc hxs]
          rfl
        · rw [lines_cons_of_ne hc hxs]
          exact hlength
      | nil =>
        -- The character takes the place of the line without characters.
        rw [hxs] at hlines hlength
        cases gap with
        | nil => nomatch hlength
        | cons l gap =>
          obtain rfl := hgap l List.mem_cons_self
          have hline : lines (c :: xs) = [[c]] := by rw [lines, if_neg hc, hxs]
          refine ⟨gap, ?_, fun l hl => hgap l (List.mem_cons_of_mem _ hl), ?_⟩
          · rw [List.cons_append, lines_cons_of_ne hc hlines, hline]
            rfl
          · rw [hline, ← hlength, List.length_cons, List.length_cons, List.length_nil]
            omega

theorem lines_of_not_mem {l : List Char} (h : '\n' ∉ l) (hne : l ≠ []) : lines l = [l] := by
  induction l with
  | nil => exact absurd rfl hne
  | cons c l ih =>
    rw [List.mem_cons, not_or] at h
    rw [lines, if_neg (Ne.symm h.1)]
    by_cases hl : l = []
    · rw [hl]
      rfl
    · rw [ih h.2 hl]

theorem feed_not_mem_lines (cs : List Char) : ∀ l ∈ lines cs, '\n' ∉ l := by
  fun_induction lines cs with
  | case1 => simp
  | case2 cs ih => simpa using ih
  | case3 c cs hc hnil => simpa using Ne.symm hc
  | case4 c cs hc l ls hlines ih =>
    rw [hlines, List.forall_mem_cons] at ih
    rw [List.forall_mem_cons, List.mem_cons, not_or]
    exact ⟨⟨Ne.symm hc, ih.1⟩, ih.2⟩

/-- Lines, each with a line feed behind it. -/
theorem lines_flatMap_feed {ls : List (List Char)} (h : ∀ l ∈ ls, '\n' ∉ l) :
    lines (ls.flatMap (· ++ ['\n'])) = ls := by
  induction ls with
  | nil => rfl
  | cons l ls ih =>
    obtain ⟨hl, hls⟩ := List.forall_mem_cons.1 h
    rw [List.flatMap_cons, List.append_assoc, List.singleton_append, lines_append_feed hl, ih hls]

/-- Lines with line feeds between them; an empty line at the end would not be seen. -/
theorem lines_intercalate_feed {ls : List (List Char)} (h : ∀ l ∈ ls, '\n' ∉ l ∧ l ≠ []) :
    lines (['\n'].intercalate ls) = ls := by
  induction ls with
  | nil => rfl
  | cons l ls ih =>
    obtain ⟨⟨hl, hne⟩, hls⟩ := List.forall_mem_cons.1 h
    cases ls with
    | nil => simpa using lines_of_not_mem hl hne
    | cons next ls =>
      rw [List.intercalate_cons_cons, List.append_assoc, List.singleton_append,
        lines_append_feed hl, ih hls]

/-! ## Trimming -/

theorem isAsciiBlank_eq_false {c : Char} (h : isBlank c = false) : isAsciiBlank c = false := by
  rw [Bool.eq_false_iff]
  intro hblank
  exact Bool.false_ne_true (h.symm.trans (isBlank_of_isAsciiBlank hblank))

theorem dropWhile_of_head? {p : Char → Bool} {cs : List Char} (h : ∀ c ∈ cs.head?, p c = false) :
    cs.dropWhile p = cs := by
  cases cs with
  | nil => rfl
  | cons c cs => exact List.dropWhile_cons_of_neg (by simp [h c rfl])

/-- There are no blanks at the two ends of the text. -/
def Trimmed (cs : List Char) : Prop :=
  (∀ c ∈ cs.head?, isBlank c = false) ∧ ∀ c ∈ cs.getLast?, isBlank c = false

theorem Trimmed.trim_eq {cs : List Char} (h : Trimmed cs) : trim cs = cs := by
  unfold trim
  rw [dropWhile_of_head? h.1, dropWhile_of_head? (by rw [List.head?_reverse]; exact h.2),
    List.reverse_reverse]

theorem Trimmed.append {xs ys : List Char} (hx : Trimmed xs) (hy : Trimmed ys) (hxs : xs ≠ [])
    (hys : ys ≠ []) (between : List Char) : Trimmed (xs ++ (between ++ ys)) := by
  constructor
  · rw [List.head?_append, Option.or_of_isSome (by simpa using hxs)]
    exact hx.1
  · rw [← List.append_assoc, List.getLast?_append, Option.or_of_isSome (by simpa using hys)]
    exact hy.2

theorem trimmed_quoted (cs : List Char) : Trimmed (quoted cs) := by
  constructor
  · rintro _ ⟨⟩
    decide
  · simp only [quoted, List.getLast?_append, List.getLast?_singleton]
    rintro _ ⟨⟩
    decide

/-! ## Words -/

namespace WordRest

variable {c : Char} (cs : List Char)

theorem ofChars_quote (inQuotes : Bool) :
    ofChars inQuotes ('"' :: cs) = { ofChars (!inQuotes) cs with hasQuote := true } := by
  rw [ofChars.eq_def]
  exact if_pos rfl

theorem ofChars_backslash (c : Char) :
    ofChars true ('\\' :: c :: cs) = (ofChars true cs).letter c :=
  rfl

theorem ofChars_blank (h : isAsciiBlank c = true) :
    ofChars false (c :: cs) = ⟨[], false, (ofChars false cs).all⟩ := by
  have hquote : c ≠ '"' := by
    rintro rfl
    exact absurd h (by decide)
  rw [ofChars.eq_def]
  dsimp only
  rw [if_neg hquote, if_neg (by simp), if_pos (by simp [h])]

/-- Any character but a quote, a backslash inside of quotes and a blank outside of them. -/
theorem ofChars_letter {inQuotes : Bool} (hquote : c ≠ '"') (hescape : ¬ (c = '\\' ∧ inQuotes))
    (hblank : ¬ (isAsciiBlank c ∧ !inQuotes)) :
    ofChars inQuotes (c :: cs) = (ofChars inQuotes cs).letter c := by
  rw [ofChars.eq_def]
  dsimp only
  rw [if_neg hquote, if_neg hescape, if_neg hblank]

theorem ofChars_outside (hquote : c ≠ '"') (hblank : isAsciiBlank c = false) :
    ofChars false (c :: cs) = (ofChars false cs).letter c :=
  ofChars_letter cs hquote (by simp) (by simp [hblank])

/-- Letters outside of quotes belong to one word, with what follows them. -/
theorem ofChars_letters {w : List Char} (h : ∀ c ∈ w, c ≠ '"' ∧ isAsciiBlank c = false)
    (rest : List Char) : ofChars false (w ++ rest) =
      { ofChars false rest with letters := w ++ (ofChars false rest).letters } := by
  induction w with
  | nil => rfl
  | cons c w ih =>
    obtain ⟨hc, hw⟩ := List.forall_mem_cons.1 h
    rw [List.cons_append, ofChars_outside _ hc.1 hc.2, ih hw]
    rfl

theorem ofChars_inside (hquote : c ≠ '"') (hbackslash : c ≠ '\\') :
    ofChars true (c :: cs) = (ofChars true cs).letter c :=
  ofChars_letter cs hquote (by simp [hbackslash]) (by simp)

theorem ofChars_escape (cs rest : List Char) :
    ofChars true (escape cs ++ '"' :: rest) =
      ⟨cs ++ (ofChars false rest).letters, true, (ofChars false rest).others⟩ := by
  induction cs with
  | nil => exact ofChars_quote rest true
  | cons c cs ih =>
    unfold escape
    by_cases hc : c = '"' ∨ c = '\\'
    · rw [if_pos hc, List.cons_append, List.cons_append, ofChars_backslash, ih]
      rfl
    · have hplain := not_or.1 hc
      rw [if_neg hc, List.cons_append, ofChars_inside _ hplain.1 hplain.2, ih]
      rfl

/-- What stands between quotes belongs to one word, with what follows the closing quote. -/
theorem ofChars_quoted (cs rest : List Char) :
    ofChars false (quoted cs ++ rest) =
      ⟨cs ++ (ofChars false rest).letters, true, (ofChars false rest).others⟩ := by
  have hquoted : quoted cs ++ rest = '"' :: (escape cs ++ '"' :: rest) := by simp [quoted]
  rw [hquoted, ofChars_quote, Bool.not_false, ofChars_escape]

theorem all_of_hasQuote {r : WordRest} (h : r.hasQuote = true) : r.all = r.letters :: r.others :=
  if_neg (by simp [h])

theorem all_of_letters {r : WordRest} (h : r.letters ≠ []) : r.all = r.letters :: r.others :=
  if_neg (by simp [h])

/-- A text that does not begin with a blank begins with a word. -/
theorem all_of_head? {cs : List Char} (hne : cs ≠ [])
    (h : ∀ c ∈ cs.head?, isAsciiBlank c = false) :
    (ofChars false cs).all = (ofChars false cs).letters :: (ofChars false cs).others := by
  obtain ⟨c, cs, rfl⟩ := List.exists_cons_of_ne_nil hne
  by_cases hquote : c = '"'
  · rw [hquote, ofChars_quote]
    exact all_of_hasQuote rfl
  · rw [ofChars_outside cs hquote (h c rfl)]
    exact all_of_letters (List.cons_ne_nil _ _)

theorem all_ofChars_quoted (cs : List Char) : (ofChars false (quoted cs)).all = [cs] := by
  have h := ofChars_quoted cs []
  rw [List.append_nil] at h
  rw [h, all_of_hasQuote rfl]
  simp [ofChars]

end WordRest

theorem words_quoted (s : String) : words (quoted s.toList) = [s] := by
  unfold words
  rw [WordRest.all_ofChars_quoted, List.map_singleton, String.ofList_toList]

theorem words_quoted_quoted (s t : String) :
    words (quoted s.toList ++ ' ' :: quoted t.toList) = [s, t] := by
  unfold words
  rw [WordRest.ofChars_quoted, WordRest.all_of_hasQuote rfl,
    WordRest.ofChars_blank _ (by decide), WordRest.all_ofChars_quoted]
  simp

section Letters

variable {w : List Char} (hw : ∀ c ∈ w, c ≠ '"' ∧ isAsciiBlank c = false)
include hw

/-- Letters with a blank behind them are a word. -/
theorem words_letters_blank (hne : w ≠ []) (rest : List Char) :
    words (w ++ ' ' :: rest) = String.ofList w :: words rest := by
  unfold words
  rw [WordRest.ofChars_letters hw, WordRest.ofChars_blank _ (by decide),
    WordRest.all_of_letters (by simpa using hne), List.append_nil]
  rfl

/-- Letters right before a text go with its first word. -/
theorem words_letters_append {rest : List Char} (hne : rest ≠ [])
    (hrest : ∀ c ∈ rest.head?, isAsciiBlank c = false) :
    ∃ (first : String) (others : List String), words rest = first :: others ∧
      words (w ++ rest) = (String.ofList w ++ first) :: others := by
  let r := WordRest.ofChars false rest
  have hhead : ∀ c ∈ (w ++ rest).head?, isAsciiBlank c = false := by
    cases w with
    | nil => exact hrest
    | cons c w => exact fun _ hc => Option.some.inj hc ▸ (hw c List.mem_cons_self).2
  refine ⟨String.ofList r.letters, r.others.map String.ofList, ?_, ?_⟩
  · unfold words
    rw [WordRest.all_of_head? hne hrest]
    rfl
  · unfold words
    rw [WordRest.all_of_head? (List.append_ne_nil_of_right_ne_nil w hne) hhead,
      WordRest.ofChars_letters hw, List.map_cons, String.ofList_append]

end Letters

end Text

end Runbook
