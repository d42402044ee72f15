import Runbook.Proofs.Text.Words
import Runbook.Text.WordReader

/-!
# Rows of words

A word may be written as it is or between quotes (`WordForm`). Words written in either way, with
blanks between each two of them and perhaps before and after, are read as the same words in the same
order (`words_row`): a quote or a backslash, a blank or no letter at all is kept between quotes, and
a gap, however long, is no word.

A reader that goes through a line with a part of a word in hand finds what is found from its place
on, with that part in front (`WordReader.read_eq`), so it reads the same words.
-/

namespace Runbook

namespace Text

/-! ## Reading from left to right -/

namespace WordRest

/-- What is found from a point on, behind a part of a word. -/
def behind (letters : List Char) (hasQuote : Bool) (r : WordRest) : WordRest :=
  ⟨letters ++ r.letters, hasQuote || r.hasQuote, r.others⟩

theorem behind_nothing (r : WordRest) : r.behind [] false = r := rfl

/-- In front of a gap the part is a word of its own. -/
theorem behind_gap (letters : List Char) (hasQuote : Bool) (others : List (List Char)) :
    (⟨[], false, others⟩ : WordRest).behind letters hasQuote = ⟨letters, hasQuote, others⟩ := by
  simp [behind]

theorem behind_quote (letters : List Char) (hasQuote : Bool) (r : WordRest) :
    ({ r with hasQuote := true } : WordRest).behind letters hasQuote = r.behind letters true := by
  simp [behind]

theorem behind_letter (letters : List Char) (hasQuote : Bool) (c : Char) (r : WordRest) :
    (r.letter c).behind letters hasQuote = r.behind (letters ++ [c]) hasQuote := by
  simp [behind, letter]

end WordRest

namespace WordReader

open WordRest

/-- The words of a reader and others after them; the word in hand is among them if it counts. -/
theorem all_append (r : WordReader) (others : List (List Char)) :
    r.all ++ others.map String.ofList =
      r.words ++ (⟨r.letters, r.hasQuote, others⟩ : WordRest).all.map String.ofList := by
  obtain ⟨inQuotes, hasQuote, letters, words⟩ := r
  cases letters <;> cases hasQuote <;> simp [WordReader.all, WordRest.all]

/-- A reader comes to the words that it has put out and to what is found from its place on, the
letters in hand in front. -/
theorem read_eq (r : WordReader) (cs : List Char) :
    r.read cs =
      r.words ++ ((ofChars r.inQuotes cs).behind r.letters r.hasQuote).all.map String.ofList := by
  fun_induction read r cs with
  | case1 r => simpa [ofChars, behind_gap] using all_append r []
  | case2 r cs ih =>
    rw [ih, ofChars_quote, behind_quote]
    rfl
  | case3 r c hquote hescape =>
    obtain ⟨rfl, hinside⟩ := hescape
    rw [hinside]
    simpa [ofChars, behind_gap] using all_append r []
  | case4 r c hquote hescape taken cs ih =>
    obtain ⟨rfl, hinside⟩ := hescape
    rw [ih, hinside, ofChars_backslash, behind_letter]
    simp only [push, hinside]
  | case5 r c cs hquote hescape hblank ih =>
    have houtside : r.inQuotes = false := by simpa using hblank.2
    rw [ih, houtside, ofChars_blank cs hblank.1, behind_gap, ← all_append]
    simp only [close, houtside, behind_nothing]
  | case6 r c cs hquote hescape hblank ih =>
    rw [ih, ofChars_letter cs hquote hescape hblank, behind_letter]
    rfl

/-- A reader at the front of a line reads its words. -/
theorem read_start (cs : List Char) : start.read cs = Text.words cs := by
  rw [read_eq]
  exact congrArg (List.map String.ofList) (congrArg WordRest.all (behind_nothing _))

end WordReader

/-! ## Words as they are written -/

/-- A way of writing a word: as it is, if it has letters and neither a quote nor a blank is among
them, or between quotes. -/
inductive WordForm where
  | bare (word : String) (letters : word ≠ "")
      (plain : ∀ c ∈ word.toList, c ≠ '"' ∧ isAsciiBlank c = false)
  | quoted (word : String)

namespace WordForm

/-- The word that is meant. -/
def word : WordForm → String
  | bare word _ _ => word
  | quoted word => word

/-- The characters that are written for it. -/
def chars : WordForm → List Char
  | bare word _ _ => word.toList
  | quoted word => Text.quoted word.toList

end WordForm

/-- Blanks that separate words, as many as there may be. -/
def IsGap (cs : List Char) : Prop := ∀ c ∈ cs, isAsciiBlank c = true

instance (cs : List Char) : Decidable (IsGap cs) :=
  List.decidableBAll (fun c => isAsciiBlank c = true) cs

/-- Words in a row, each with the blanks before it. -/
def rowChars (row : List (List Char × WordForm)) : List Char :=
  row.flatMap fun (gap, form) => gap ++ form.chars

namespace WordRest

variable {rest : List Char}

/-- No word stands at a gap or at the end of the line. -/
theorem ofChars_of_head? (h : ∀ c ∈ rest.head?, isAsciiBlank c = true) :
    ofChars false rest = ⟨[], false, (ofChars false rest).all⟩ := by
  cases rest with
  | nil => rfl
  | cons c cs =>
    rw [ofChars_blank cs (h c rfl)]
    rfl

theorem all_gap {gap : List Char} (h : IsGap gap) (rest : List Char) :
    (ofChars false (gap ++ rest)).all = (ofChars false rest).all := by
  induction gap with
  | nil => rfl
  | cons c gap ih =>
    obtain ⟨hc, hgap⟩ := List.forall_mem_cons.1 h
    rw [List.cons_append, ofChars_blank _ hc]
    exact ih hgap

/-- A word ends at a gap or at the end of the line, however it is written. -/
theorem all_form (form : WordForm) (h : ∀ c ∈ rest.head?, isAsciiBlank c = true) :
    (ofChars false (form.chars ++ rest)).all = form.word.toList :: (ofChars false rest).all := by
  cases form with
  | bare word letters plain =>
    have hletters : word.toList ≠ [] := by simpa using letters
    rw [WordForm.chars, ofChars_letters plain, ofChars_of_head? h,
      all_of_letters (by simpa using hletters), List.append_nil]
    rfl
  | quoted word =>
    rw [WordForm.chars, ofChars_quoted, ofChars_of_head? h, all_of_hasQuote rfl, List.append_nil]
    rfl

end WordRest

section Rows

variable {row : List (List Char × WordForm)} {after : List Char}

/-- Behind a word of a row stands a gap, or the line ends. -/
theorem isAsciiBlank_head? (hgaps : ∀ p ∈ row, IsGap p.1) (happart : ∀ p ∈ row, p.1 ≠ [])
    (hafter : IsGap after) : ∀ c ∈ (rowChars row ++ after).head?, isAsciiBlank c = true := by
  cases row with
  | nil => exact fun c hc => hafter c (List.mem_of_head? hc)
  | cons p row =>
    obtain ⟨gap, form⟩ := p
    cases gap with
    | nil => exact absurd rfl (happart _ List.mem_cons_self)
    | cons d gap =>
      have hd : isAsciiBlank d = true := hgaps _ List.mem_cons_self d List.mem_cons_self
      intro c hc
      obtain rfl : d = c := Option.some.inj hc
      exact hd

theorem all_row (hgaps : ∀ p ∈ row, IsGap p.1) (happart : ∀ p ∈ row.tail, p.1 ≠ [])
    (hafter : IsGap after) :
    (WordRest.ofChars false (rowChars row ++ after)).all = row.map (·.2.word.toList) := by
  induction row with
  | nil =>
    have hnone := WordRest.all_gap hafter []
    rwa [List.append_nil] at hnone
  | cons p row ih =>
    obtain ⟨hgap, hgaps⟩ := List.forall_mem_cons.1 hgaps
    have hrest := ih hgaps fun q hq => happart q (List.mem_of_mem_tail hq)
    have hhead := isAsciiBlank_head? hgaps happart hafter
    have hchars : rowChars (p :: row) ++ after = p.1 ++ (p.2.chars ++ (rowChars row ++ after)) := by
      simp [rowChars]
    rw [hchars, WordRest.all_gap hgap, WordRest.all_form p.2 hhead, hrest, List.map_cons]

/-- Words in a row are read as they have been written, each as it is or between quotes, whatever
gaps stand between them and at the two ends of the line. -/
theorem words_row (hgaps : ∀ p ∈ row, IsGap p.1) (happart : ∀ p ∈ row.tail, p.1 ≠ [])
    (hafter : IsGap after) :
    words (rowChars row ++ after) = row.map (·.2.word) ∧
      WordReader.start.read (rowChars row ++ after) = row.map (·.2.word) := by
  have hwords : words (rowChars row ++ after) = row.map (·.2.word) := by
    unfold words
    rw [all_row hgaps happart hafter, List.map_map]
    exact List.map_congr_left fun p _ => String.ofList_toList
  exact ⟨hwords, (WordReader.read_start _).trans hwords⟩

end Rows

/-- A word with two backslashes as it is, one without letters, and one with a quote, a backslash and
blanks; the gaps are longer than one blank, and the line begins and ends with one. -/
theorem words_row_mixed :
    let row : List (List Char × WordForm) :=
      [([' ', '\x0c'], .bare "\\t\\" (by decide) (by simp [isAsciiBlank])),
        (['\r', '\n'], .quoted ""), (['\t'], .quoted "a\" \\ b")]
    let line := " \x0c\\t\\\r\n\"\"\t\"a\\\" \\\\ b\" ".toList
    (∀ p ∈ row, IsGap p.1) ∧ (∀ p ∈ row.tail, p.1 ≠ []) ∧ IsGap [' '] ∧
      rowChars row ++ [' '] = line ∧ words line = ["\\t\\", "", "a\" \\ b"] ∧
      WordReader.start.read line = ["\\t\\", "", "a\" \\ b"] := by
  intro row line
  have hgaps : ∀ p ∈ row, IsGap p.1 := by decide
  have happart : ∀ p ∈ row.tail, p.1 ≠ [] := by decide
  have hafter : IsGap [' '] := by decide
  have hline : rowChars row ++ [' '] = line := by decide
  obtain ⟨hwords, hread⟩ := words_row hgaps happart hafter
  rw [hline] at hwords hread
  exact ⟨hgaps, happart, hafter, hline, hwords, hread⟩

end Text

end Runbook
