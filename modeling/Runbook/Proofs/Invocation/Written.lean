import Runbook.Proofs.Invocation.WellFormed

/-!
# Writing invocations

A well-formed invocation is written as one line of a script: its name, then each argument behind a
space, its parts side by side, a literal as a quoted string and a variable behind a dollar sign.
Reading the lines gives the names and arguments back, however the lines are ended
(`parse_written`).

No part can run into what follows it: a quoted string ends with its quote, and the name of a
variable ends where neither a letter, a digit nor an underscore follows, so it ends at the next
part, whose first character is a quote or a dollar sign, and at a space.
-/

namespace Runbook

open Text

/-! ## Written lines -/

namespace Part

/-- The kind of token that a part is written as. -/
def kind : Part → Token.Kind
  | .literal _ => .quoted
  | .variable _ => .variable

/-- A part as it is written: text between quotes, a variable behind its dollar sign. -/
def written : Part → List Char
  | .literal text => quoted text.toList
  | .variable name => '$' :: name.toList

/-- The lexeme of a part that is written so. -/
def lexeme (p : Part) : Lexeme := ⟨p.kind, p.written⟩

end Part

/-- An argument as it is written, its parts side by side. -/
def Argument.written (a : Argument) : List Char := a.parts.flatMap Part.written

/-- The lexemes of an argument, the space before it included. -/
def Argument.lexemes (a : Argument) : List Lexeme := ⟨.blank, [' ']⟩ :: a.parts.map Part.lexeme

namespace Invocation

/-- An invocation as it is written, with one blank before each argument. -/
def written (inv : Invocation) : List Char :=
  inv.name.toList ++ inv.arguments.flatMap fun a => ' ' :: a.written

/-- A script with each invocation on a line of its own. -/
def script (lineEnd : List Char) (invs : List Invocation) : List Char :=
  lineEnd.intercalate (invs.map written)

/-- What an invocation says, wherever it stands. -/
def said (inv : Invocation) : String × List Argument := (inv.name, inv.arguments)

end Invocation

/-! ## Parts of an argument as tokens -/

namespace Text

theorem quotedTail_escape {cs : List Char} (h : SingleLine cs) :
    Token.QuotedTail (escape cs ++ ['"']) cs := by
  induction cs with
  | nil => exact .close
  | cons c cs ih =>
    obtain ⟨⟨hreturn, hfeed⟩, hcs⟩ := singleLine_cons.1 h
    unfold escape
    split
    · rename_i hc
      rcases hc with rfl | rfl
      · exact .escapedQuote (ih hcs)
      · exact .escapedBackslash (ih hcs)
    · rename_i hc
      rw [not_or] at hc
      exact .plain hc.1 hc.2 hreturn hfeed (ih hcs)

end Text

namespace Part

/-- The text that a part is made of. -/
def content : Part → List Char
  | .literal text => text.toList
  | .variable name => name.toList

theorem WellFormed.spells {p : Part} (h : p.WellFormed) :
    Token.Spells p.kind p.written p.content := by
  cases p with
  | literal text => exact .quoted (quotedTail_escape h)
  | _ => exact .variableName h

theorem ofToken_ofLexeme (position : Nat) (p : Part) :
    ofToken (Token.ofLexeme position p.lexeme) = p := by
  cases p with
  | literal text =>
    have hmeaning : Token.Kind.quoted.meaning (quoted text.toList) = text.toList := by
      show Token.unescape (escape text.toList ++ ['"']).dropLast = text.toList
      rw [List.dropLast_concat, Token.unescape_escape]
    show literal (String.ofList (Token.Kind.quoted.meaning (quoted text.toList))) = literal text
    rw [hmeaning, String.ofList_toList]
  | «variable» name =>
    show «variable» (String.ofList name.toList) = «variable» name
    rw [String.ofList_toList]

theorem RowWellFormed.tail {p : Part} {row : List Part} (h : RowWellFormed (p :: row)) :
    RowWellFormed row :=
  ⟨fun q hq => h.parts q (List.mem_cons_of_mem p hq), h.apart.tail⟩

/-- Nothing is merged where no two literals stand side by side. -/
theorem RowWellFormed.cons_eq {p : Part} {row : List Part} (h : RowWellFormed (p :: row)) :
    p.cons row = p :: row := by
  unfold Part.cons
  split
  · exact absurd ⟨rfl, rfl⟩ (List.isChain_cons_cons.1 h.apart).1
  · rfl

end Part

theorem Argument.ofTokens_place {row : List Part} (h : Part.RowWellFormed row) (position : Nat) :
    Argument.ofTokens (Token.place position (row.map Part.lexeme)) = ⟨row⟩ := by
  unfold Argument.ofTokens
  congr 1
  induction row generalizing position with
  | nil => rfl
  | cons p row ih =>
    rw [List.map_cons, Token.place, List.foldr_cons, ih h.tail, Part.ofToken_ofLexeme, h.cons_eq]

/-! ## Scanning a line -/

namespace Lexeme

/-- The characters of an identifier go on no further than the identifier if neither a letter, a
digit nor an underscore follows. -/
theorem run_identifier {w rest : List Char} (hw : ∀ c ∈ w, isWordPart c)
    (hrest : rest.head?.any isWordPart = false) : run isWordPart (w ++ rest) = w.length := by
  refine run_append_of_all hw ?_
  cases rest with
  | nil => rfl
  | cons c rest => exact List.takeWhile_cons_of_neg (by simpa using hrest)

theorem split_word {w rest : List Char} (hw : Token.IsIdentifier w)
    (hrest : rest.head?.any isWordPart = false) :
    split (w ++ rest) = (⟨.word, w⟩ :: (split rest).1, (split rest).2) := by
  obtain ⟨c, cs, rfl, hc, hcs⟩ := hw
  have hm := @measure_of_isWordStart c (cs ++ rest) hc
  rw [run_identifier hcs hrest] at hm
  rw [List.cons_append, split_of_ok hm, List.take_left, List.drop_left]

theorem split_part {p : Part} (h : p.WellFormed) {rest : List Char}
    (hrest : rest.head?.any isWordPart = false) :
    split (p.written ++ rest) = (p.lexeme :: (split rest).1, (split rest).2) := by
  cases p with
  | literal text =>
    have hm := measure_quote (quotedSize_of_quotedTail (quotedTail_escape h) rest)
    show split ('"' :: (escape text.toList ++ ['"'] ++ rest)) = _
    rw [split_of_ok hm, List.take_left, List.drop_left]
    rfl
  | «variable» name =>
    replace h : Token.IsIdentifier name.toList := h
    have hm := measure_dollar (h.head?_any rest)
    rw [run_identifier h.isWordPart hrest] at hm
    show split ('$' :: (name.toList ++ rest)) = _
    rw [split_of_ok hm, List.take_left, List.drop_left]
    rfl

/-- The first character of a written part stands in no identifier. -/
theorem head?_written (p : Part) (rest : List Char) :
    (p.written ++ rest).head? = some '"' ∨ (p.written ++ rest).head? = some '$' := by
  cases p with
  | literal text => exact .inl rfl
  | _ => exact .inr rfl

theorem split_row {row : List Part} (h : ∀ p ∈ row, p.WellFormed) {rest : List Char}
    (hrest : rest.head?.any isWordPart = false) :
    split (row.flatMap Part.written ++ rest) =
      (row.map Part.lexeme ++ (split rest).1, (split rest).2) := by
  induction row with
  | nil => rfl
  | cons p row ih =>
    obtain ⟨hp, hrow⟩ := List.forall_mem_cons.1 h
    -- behind a part stands the next one, or what follows the row
    have hnext : (row.flatMap Part.written ++ rest).head?.any isWordPart = false := by
      cases row with
      | nil => exact hrest
      | cons q row =>
        rw [List.flatMap_cons, List.append_assoc]
        rcases head?_written q (row.flatMap Part.written ++ rest) with hq | hq <;> rw [hq] <;> rfl
    rw [List.flatMap_cons, List.append_assoc, split_part hp hnext, ih hrow]
    rfl

theorem split_arguments {args : List Argument} (h : ∀ a ∈ args, a.WellFormed) :
    split (args.flatMap fun a => ' ' :: a.written) = (args.flatMap Argument.lexemes, none) := by
  induction args with
  | nil => exact split_nil
  | cons a args ih =>
    obtain ⟨ha, hargs⟩ := List.forall_mem_cons.1 h
    have hnext : (args.flatMap fun a => ' ' :: a.written).head?.any isWordPart = false := by
      cases args <;> rfl
    have hfirst : (a.written ++ args.flatMap fun a => ' ' :: a.written).head?.any isSpace =
        false := by
      obtain ⟨p, row, hparts⟩ := List.exists_cons_of_ne_nil ha.nonempty
      rw [Argument.written, hparts, List.flatMap_cons, List.append_assoc]
      rcases head?_written p (row.flatMap Part.written ++ args.flatMap fun a => ' ' :: a.written)
        with hp | hp <;> rw [hp] <;> rfl
    have hspace := split_blanks (w := [' ']) nofun (List.forall_mem_singleton.2 rfl) hfirst
    rw [List.flatMap_cons, List.flatMap_cons, List.cons_append, ← List.singleton_append, hspace,
      Argument.written, split_row ha.row.parts hnext, ih hargs]
    rfl

/-- The lexemes of an invocation, as it is written. -/
theorem split_written {inv : Invocation} (h : inv.WellFormed) :
    split inv.written =
      (⟨.word, inv.name.toList⟩ :: inv.arguments.flatMap Argument.lexemes, none) := by
  have hnext : (inv.arguments.flatMap fun a => ' ' :: a.written).head?.any isWordPart = false := by
    cases inv.arguments <;> rfl
  rw [Invocation.written, split_word h.name hnext, split_arguments h.arguments]

end Lexeme

/-! ## Reading a line -/

namespace Token

/-- Tokens without a blank are one group, and a blank behind them ends it. -/
theorem groups_append {ts rest : List Token} (hne : ts ≠ []) (hts : ∀ t ∈ ts, t.kind ≠ .blank)
    (hrest : ∀ t ∈ rest.head?, t.kind = .blank) : groups (ts ++ rest) = ts :: groups rest := by
  induction ts with
  | nil => exact absurd rfl hne
  | cons t ts ih =>
    obtain ⟨ht, hts⟩ := List.forall_mem_cons.1 hts
    cases ts with
    | nil =>
      cases rest with
      | nil => simp [groups, ht]
      | cons u rest =>
        have hu : u.kind = .blank := hrest u rfl
        simp [groups, ht, hu]
    | cons u ts =>
      have hu : u.kind ≠ .blank := hts u List.mem_cons_self
      have := ih (List.cons_ne_nil u ts) hts
      rw [List.cons_append] at this
      rw [List.cons_append, List.cons_append, groups, this]
      simp [ht, hu]

theorem kind_ne_blank_of_mem_place {row : List Part} {position : Nat} {t : Token}
    (h : t ∈ place position (row.map Part.lexeme)) : t.kind ≠ .blank := by
  obtain ⟨xs, l, ys, hls, rfl⟩ := mem_place h
  have hl : l ∈ row.map Part.lexeme := hls ▸ List.mem_append_right xs List.mem_cons_self
  obtain ⟨p, -, rfl⟩ := List.mem_map.1 hl
  cases p <;> nofun

theorem head?_place_arguments (args : List Argument) (position : Nat) :
    ∀ t ∈ (place position (args.flatMap Argument.lexemes)).head?, t.kind = .blank := by
  intro t ht
  cases args with
  | nil => nomatch ht
  | cons a args => exact Option.some.inj ht ▸ rfl

/-- The groups of the tokens behind the name are the arguments. -/
theorem groups_place {args : List Argument} (h : ∀ a ∈ args, a.WellFormed) (position : Nat) :
    (groups (place position (args.flatMap Argument.lexemes))).map Argument.ofTokens = args := by
  induction args generalizing position with
  | nil => rfl
  | cons a args ih =>
    obtain ⟨ha, hargs⟩ := List.forall_mem_cons.1 h
    have hne : ∀ n, place n (a.parts.map Part.lexeme) ≠ [] := by
      obtain ⟨p, row, hparts⟩ := List.exists_cons_of_ne_nil ha.nonempty
      rw [hparts]
      exact fun n => List.cons_ne_nil _ _
    rw [List.flatMap_cons, Argument.lexemes, List.cons_append, place, place_append]
    simp only [groups, ofLexeme, if_pos]
    rw [groups_append (hne _) (fun t => kind_ne_blank_of_mem_place) (head?_place_arguments _ _),
      List.map_cons, ih hargs, Argument.ofTokens_place ha.row]

end Token

namespace Invocation

theorem singleLine_written {inv : Invocation} (h : inv.WellFormed) : SingleLine inv.written := by
  refine singleLine_append.2 ⟨h.name.singleLine, ?_⟩
  intro c hc
  obtain ⟨a, ha, hc⟩ := List.mem_flatMap.1 hc
  rcases List.mem_cons.1 hc with rfl | hc
  · decide
  · obtain ⟨p, hp, hc⟩ := List.mem_flatMap.1 hc
    have hspells := ((h.arguments a ha).row.parts p hp).spells
    exact (hspells.singleLine (by cases p <;> nofun)).1 c hc

theorem ofLine_written {inv : Invocation} (h : ∀ a ∈ inv.arguments, a.WellFormed)
    (source : List Char) (line position : Nat) :
    ofLine source line (Token.place position
        (⟨.word, inv.name.toList⟩ :: inv.arguments.flatMap Argument.lexemes)) =
      .ok (some { inv with line, position }) := by
  have hname : (Token.ofLexeme position ⟨.word, inv.name.toList⟩).text = inv.name :=
    String.ofList_toList
  have hnext : ∀ n, (Token.place n (inv.arguments.flatMap Argument.lexemes)).head?.any
      (·.kind ≠ .blank) = false := by
    intro n
    rw [Option.any_eq_false]
    intro t ht
    simpa using Token.head?_place_arguments inv.arguments n t ht
  have hhead : (Token.ofLexeme position ⟨.word, inv.name.toList⟩).kind = .word := rfl
  unfold ofLine
  rw [Token.place, List.dropWhile_cons_of_neg (by simp [hhead])]
  dsimp only
  rw [if_pos hhead, hnext, if_neg Bool.false_ne_true, Token.groups_place h, hname]
  rfl

theorem ofChars_written {inv : Invocation} (h : inv.WellFormed) :
    ofChars inv.written = .ok [{ inv with line := 1, position := 0 }] := by
  rw [ofChars_of_singleLine (singleLine_written h) (Lexeme.split_written h),
    ofLine_written h.arguments]
  rfl

end Invocation

/-! ## Reading a script -/

namespace Text

/-- The three ways to end a line. -/
def lineBreaks : List (List Char) := [['\n'], ['\r', '\n'], ['\r']]

theorem lineBreak_of_mem {a w b : List Char} (hw : w ∈ lineBreaks) (ha : SingleLine a)
    (hb : b.head? ≠ some '\n') : LineBreak a w b := by
  have hlast : a.getLast? ≠ some '\r' := by
    intro h
    exact (ha '\r' (List.mem_of_getLast? h)).1 rfl
  unfold lineBreaks at hw
  simp only [List.mem_cons, List.not_mem_nil, or_false] at hw
  rcases hw with rfl | rfl | rfl
  · exact .feed hlast
  · exact .returnFeed
  · exact .carriageReturn hb

end Text

namespace Invocation

theorem script_singleton (w : List Char) (inv : Invocation) : script w [inv] = inv.written := by
  simp [script, List.intercalate]

theorem script_cons_cons (w : List Char) (inv next : Invocation) (invs : List Invocation) :
    script w (inv :: next :: invs) = inv.written ++ (w ++ script w (next :: invs)) := by
  simp [script, List.intercalate]

/-- A script begins with a name. -/
theorem head?_script_ne {inv : Invocation} (h : inv.WellFormed) (w : List Char)
    (invs : List Invocation) (rest : List Char) :
    (script w (inv :: invs) ++ rest).head? ≠ some '\n' := by
  have hwritten : ∀ tail, (inv.written ++ tail).head? ≠ some '\n' := by
    intro tail hhead
    obtain ⟨c, cs, hname, hc, -⟩ := h.name
    rw [written, hname, List.cons_append, List.cons_append, List.head?_cons] at hhead
    obtain rfl := Option.some.inj hhead
    exact absurd hc (by decide)
  cases invs with
  | nil =>
    rw [script_singleton]
    exact hwritten rest
  | cons next invs =>
    rw [script_cons_cons, List.append_assoc]
    exact hwritten _

/-- A written line is read in front of a script. -/
theorem ofChars_written_lineBreak {inv : Invocation} (h : inv.WellFormed) {w b : List Char}
    (hw : w ∈ lineBreaks) (hb : b.head? ≠ some '\n') {read : List Invocation}
    (hread : ofChars b = .ok read) :
    ∃ both, ofChars (inv.written ++ (w ++ b)) = .ok both ∧
      both.map said = inv.said :: read.map said := by
  have hbreak := lineBreak_of_mem hw (singleLine_written h) hb
  rw [ofChars_lineBreak hbreak, ofChars_written h, hread]
  refine ⟨_, rfl, ?_⟩
  rw [List.singleton_append, List.map_cons, List.map_map]
  rfl

/-- A script of written lines is read, whether or not its last line is ended. -/
theorem ofChars_script {invs : List Invocation} (h : ∀ inv ∈ invs, inv.WellFormed)
    {w : List Char} (hw : w ∈ lineBreaks) {last : List Char} (hlast : last ∈ [[], w]) :
    ∃ read, ofChars (script w invs ++ last) = .ok read ∧ read.map said = invs.map said := by
  rw [List.mem_pair] at hlast
  induction invs with
  | nil =>
    refine ⟨[], ?_, rfl⟩
    show ofChars last = .ok []
    rcases hlast with rfl | rfl
    · exact ofChars_nil
    · have hbreak := lineBreak_of_mem hw singleLine_nil (b := []) nofun
      have := ofChars_lineBreak hbreak
      rw [List.nil_append, List.append_nil, ofChars_nil] at this
      exact this
  | cons inv invs ih =>
    obtain ⟨hinv, hinvs⟩ := List.forall_mem_cons.1 h
    -- the last line is ended by `last` and not by a line break between two lines
    cases invs with
    | nil =>
      rw [script_singleton]
      rcases hlast with rfl | rfl
      · rw [List.append_nil]
        exact ⟨_, ofChars_written hinv, rfl⟩
      · have := ofChars_written_lineBreak hinv hw (b := []) nofun ofChars_nil
        rwa [List.append_nil] at this
    | cons next invs =>
      obtain ⟨read, hread, hsaid⟩ := ih hinvs
      have hhead := head?_script_ne (hinvs next List.mem_cons_self) w invs last
      rw [script_cons_cons, List.append_assoc, List.append_assoc, List.map_cons, ← hsaid]
      exact ofChars_written_lineBreak hinv hw hhead hread

end Invocation

/-- Scripts say exactly the well-formed invocations: whatever is read is well formed, and whatever
is well formed can be written, each invocation on a line of its own, so that it is read back. -/
theorem parse_written :
    (∀ source invs, parse source = .ok invs → ∀ inv ∈ invs, inv.WellFormed) ∧
      ∀ invs : List Invocation, (∀ inv ∈ invs, inv.WellFormed) →
        ∀ w ∈ lineBreaks, ∀ last ∈ [[], w],
          ∃ read, parse (String.ofList (Invocation.script w invs ++ last)) = .ok read ∧
            read.map Invocation.said = invs.map Invocation.said := by
  refine ⟨fun source invs => wellFormed_of_parse, ?_⟩
  intro invs h w hw last hlast
  unfold parse
  rw [String.toList_ofList]
  exact Invocation.ofChars_script h hw hlast

/-- Variables beside a literal, escapes and an argument without characters. -/
theorem parse_written_adjacent :
    let invs : List Invocation :=
      [⟨"Echo", [⟨[.variable "a", .literal "x\"y\\", .variable "b"]⟩, ⟨[.literal ""]⟩], 1, 0⟩,
        ⟨"Stop_2", [⟨[.variable "a", .variable "b"]⟩], 2, 21⟩]
    let source := "Echo $a\"x\\\"y\\\\\"$b \"\"\nStop_2 $a$b"
    (∀ inv ∈ invs, inv.WellFormed) ∧
      String.ofList (Invocation.script ['\n'] invs ++ []) = source ∧
      ∃ read, parse source = .ok read ∧ read.map Invocation.said = invs.map Invocation.said ∧
        ∀ inv ∈ read, inv.WellFormed := by
  intro invs source
  have hwellFormed : ∀ inv ∈ invs, inv.WellFormed := by decide
  have hsource : String.ofList (Invocation.script ['\n'] invs ++ []) = source := rfl
  obtain ⟨read, hread, hsaid⟩ := parse_written.2 invs hwellFormed ['\n'] (by decide) [] (by decide)
  rw [hsource] at hread
  exact ⟨hwellFormed, hsource, read, hread, hsaid, parse_written.1 source read hread⟩

end Runbook
