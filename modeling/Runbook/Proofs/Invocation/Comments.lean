import Mathlib
import Runbook.Proofs.Invocation.Locations

/-!
# Comments

A line whose first token is `#` holds no invocation. But it is cut into tokens before its first one
is looked at, so the text of a comment is held to the same rules as any other: a quote in it opens
a string that has to be closed on the line, and a control character is a fault
(`ofChars_comment`, `ofChars_comment_of_some`). If the text can be scanned it does not matter what
it says, byte positions of what follows apart; otherwise the whole script is refused
(`comment_ignored_iff`).
-/

namespace Runbook

open Text

/-! ## Up to byte positions -/

/-- The invocation without its byte position. -/
def Invocation.unplaced (inv : Invocation) : Invocation := { inv with position := 0 }

/-- The error without its byte position; its line and column stay. -/
def ParseError.unplaced : ParseError → ParseError
  | .scan e => .scan { e with position := 0 }
  | e => e

/-- What has been read, without byte positions. -/
def unplacedReading (read : Except ParseError (List Invocation)) :
    Except ParseError (List Invocation) :=
  (read.mapError ParseError.unplaced).map (List.map Invocation.unplaced)

theorem Invocation.unplaced_moved (lines bytes : Nat) (inv : Invocation) :
    (inv.moved lines bytes).unplaced = inv.unplaced.moved lines 0 := rfl

theorem ParseError.unplaced_moved (lines bytes : Nat) (e : ParseError) :
    (e.moved lines bytes).unplaced = e.unplaced.moved lines 0 := by
  cases e <;> rfl

theorem ParseError.location_unplaced (e : ParseError) : e.unplaced.location = e.location := by
  cases e <;> rfl

theorem ParseError.location_moved (lines bytes : Nat) (e : ParseError) :
    (e.moved lines bytes).location = e.location.down lines := by
  cases e <;> rfl

theorem ParseError.moved_moved (lines bytes lines' bytes' : Nat) (e : ParseError) :
    (e.moved lines bytes).moved lines' bytes' = e.moved (lines' + lines) (bytes' + bytes) := by
  cases e <;>
    simp [moved, ScanError.moved, Location.down, Nat.add_assoc, Nat.add_comm lines,
      Nat.add_comm bytes]

theorem Invocation.map_moved_moved (lines bytes lines' bytes' : Nat) (invs : List Invocation) :
    (invs.map (moved lines bytes)).map (moved lines' bytes') =
      invs.map (moved (lines' + lines) (bytes' + bytes)) := by
  rw [List.map_map]
  refine List.map_congr_left fun inv _ => ?_
  simp [moved, Nat.add_assoc, Nat.add_comm lines, Nat.add_comm bytes]

/-- What is read behind a first text is moved in the same way, byte positions or not. -/
theorem unplacedReading_behind (first : List Invocation) (lines bytes : Nat)
    (read : Except ParseError (List Invocation)) :
    unplacedReading (do
        let others ← read.mapError (ParseError.moved lines bytes)
        return first ++ others.map (Invocation.moved lines bytes)) = do
      let others ← (unplacedReading read).mapError (ParseError.moved lines 0)
      return first.map Invocation.unplaced ++ others.map (Invocation.moved lines 0) := by
  cases read with
  | error e => exact congrArg Except.error (ParseError.unplaced_moved lines bytes e)
  | ok others =>
    refine congrArg Except.ok ?_
    simp only [List.map_append, List.map_map, Function.comp_def, Invocation.unplaced_moved]

theorem exists_of_unplacedReading_eq_error {read : Except ParseError (List Invocation)}
    {e : ParseError} (h : unplacedReading read = unplacedReading (.error e)) :
    ∃ e', read = .error e' ∧ e'.location = e.location := by
  cases read with
  | ok invs => nomatch h
  | error e' =>
    refine ⟨e', rfl, ?_⟩
    rw [← ParseError.location_unplaced, ← e.location_unplaced]
    exact congrArg ParseError.location (Except.error.inj h)

/-- An error stands in the first line or below. -/
theorem ParseError.line_pos {source : String} {e : ParseError} (h : parse source = .error e) :
    0 < e.location.line := by
  rcases parse_eq_error_iff.1 h with hlines | ⟨-, fault, hfault, rfl⟩
  · obtain ⟨before, item, after, -, -, hlocated⟩ := Invocation.locatedAt_of_error hlines
    rw [hlocated.line_eq]
    omega
  · obtain ⟨-, hlocated⟩ := Scan.locatedAt_of_error hfault
    rw [hlocated.line_eq]
    omega

/-! ## The tokens of a comment -/

namespace Lexeme

theorem split_hash (c : List Char) :
    split ('#' :: c) = (⟨.symbol, ['#']⟩ :: (split c).1, (split c).2) := by
  have hm : Lexeme.measure '#' c = .ok (.symbol, 0) := rfl
  exact split_of_ok hm

theorem split_comment {w : List Char} (hw : ∀ x ∈ w, isSpace x) (c : List Char) :
    ∃ blanks : List Lexeme, (∀ l ∈ blanks, l.kind = .blank) ∧ joined blanks = w ∧
      split (w ++ '#' :: c) =
        (blanks ++ ⟨.symbol, ['#']⟩ :: (split c).1, (split c).2) := by
  by_cases hne : w = []
  · subst hne
    exact ⟨[], nofun, rfl, split_hash c⟩
  · refine ⟨[⟨.blank, w⟩], by simp, by simp [joined], ?_⟩
    rw [split_blanks hne hw rfl, split_hash]
    rfl

end Lexeme

/-! ## Reading a comment -/

namespace Invocation

theorem ofLine_comment (source : List Char) (line position : Nat) {blanks : List Lexeme}
    (hblanks : ∀ l ∈ blanks, l.kind = .blank) (ls : List Lexeme) :
    ofLine source line (Token.place position (blanks ++ ⟨.symbol, ['#']⟩ :: ls)) = .ok none := by
  have hall : ∀ t ∈ Token.place position blanks, decide (t.kind = .blank) = true := by
    intro t ht
    obtain ⟨xs, l, ys, rfl, rfl⟩ := Token.mem_place ht
    exact decide_eq_true (hblanks l (by simp))
  unfold ofLine
  rw [Token.place_append, List.dropWhile_append_of_pos hall, Token.place,
    List.dropWhile_cons_of_neg (by simp [Token.ofLexeme])]
  rfl

variable {w c : List Char} (hw : ∀ x ∈ w, Lexeme.isSpace x) (hc : SingleLine c)

include hw hc

theorem singleLine_comment : SingleLine (w ++ '#' :: c) := by
  have hblanks : SingleLine w := Token.singleLine_of_all (p := Lexeme.isSpace) rfl rfl hw
  simpa [hblanks] using hc

/-- A comment that can be scanned is a script of its own without an invocation. -/
theorem ofChars_comment (hscan : (Lexeme.split c).2 = none) : ofChars (w ++ '#' :: c) = .ok [] := by
  obtain ⟨blanks, hblanks, -, hsplit⟩ := Lexeme.split_comment hw c
  rw [hscan] at hsplit
  rw [ofChars_of_singleLine (singleLine_comment hw hc) hsplit, ofLine_comment _ _ _ hblanks]
  rfl

/-- A fault in the text of a comment is one of the script. -/
theorem ofChars_comment_of_some {fault : ScanFault} (hscan : (Lexeme.split c).2 = some fault) :
    let stop := byteLength w + 1 + byteLength (Lexeme.joined (Lexeme.split c).1)
    ofChars (w ++ '#' :: c) =
      .error (.scan ⟨fault, stop, Location.ofPosition (w ++ '#' :: c) stop⟩) := by
  intro stop
  obtain ⟨blanks, -, hjoined, hsplit⟩ := Lexeme.split_comment hw c
  rw [hscan] at hsplit
  have hstop : byteLength (Lexeme.joined (blanks ++ ⟨.symbol, ['#']⟩ :: (Lexeme.split c).1)) =
      stop := by
    rw [Token.joined_append, hjoined, byteLength_append, Lexeme.joined_cons, byteLength_append,
      ← Nat.add_assoc]
    rfl
  rw [ofChars_of_singleLine_of_some (singleLine_comment hw hc) hsplit, hstop]

end Invocation

/-! ## A comment between other lines -/

namespace Invocation

/-- A defect of the lines before hides those behind. -/
theorem ofChars_feed_of_error {a : List Char} {e : ParseError} (ha : ofChars a = .error e)
    (b : List Char) : ofChars (a ++ '\n' :: b) = .error e := by
  rw [ofChars_feed, ha]
  rfl

/-- A line that holds no invocation only moves what stands behind it. -/
theorem exists_ofChars_between {line : List Char} (hline : SingleLine line)
    (hempty : ofChars line = .ok []) (a b : List Char) :
    let lines := lineEnds (a ++ ['\n']) + 1
    ∃ bytes, ofChars (a ++ '\n' :: (line ++ '\n' :: b)) = do
      let first ← ofChars a
      let others ← (ofChars b).mapError (ParseError.moved lines bytes)
      return first ++ others.map (Invocation.moved lines bytes) := by
  intro lines
  have hone : lineEnds (line ++ ['\n']) = 1 := hline.lineEnds_append ['\n']
  refine ⟨byteLength a + 1 + (byteLength line + 1), ?_⟩
  rw [ofChars_feed, ofChars_feed, hempty, hone]
  cases ofChars a with
  | error e => rfl
  | ok first =>
    cases ofChars b with
    | error e => exact congrArg Except.error (ParseError.moved_moved _ _ _ _ e)
    | ok others =>
      exact congrArg (fun moved => Except.ok (first ++ moved))
        (Invocation.map_moved_moved _ _ _ _ others)

/-- Which of two such lines stands there shows in byte positions only. -/
theorem unplacedReading_between {line line' : List Char} (hline : SingleLine line)
    (hline' : SingleLine line') (hempty : ofChars line = .ok []) (hempty' : ofChars line' = .ok [])
    (a b : List Char) :
    unplacedReading (ofChars (a ++ '\n' :: (line ++ '\n' :: b))) =
      unplacedReading (ofChars (a ++ '\n' :: (line' ++ '\n' :: b))) := by
  obtain ⟨bytes, h⟩ := exists_ofChars_between hline hempty a b
  obtain ⟨bytes', h'⟩ := exists_ofChars_between hline' hempty' a b
  rw [h, h']
  cases ofChars a with
  | error e => rfl
  | ok first => exact (unplacedReading_behind _ _ _ _).trans (unplacedReading_behind _ _ _ _).symm

end Invocation

/-! ## Comments in scripts -/

theorem parse_comment (a w c b : String) :
    parse (a ++ "\n" ++ w ++ "#" ++ c ++ "\n" ++ b) =
      Invocation.ofChars
        (a.toList ++ '\n' :: (w.toList ++ '#' :: c.toList ++ '\n' :: b.toList)) := by
  unfold parse
  simp [String.toList_append]

theorem parse_bareComment (a w b : String) :
    parse (a ++ "\n" ++ w ++ "#" ++ "\n" ++ b) =
      Invocation.ofChars (a.toList ++ '\n' :: (w.toList ++ ['#'] ++ '\n' :: b.toList)) := by
  rw [← String.append_empty (s := a ++ "\n" ++ w ++ "#"), parse_comment]
  rfl

section Script

variable {w c : String}

/-- A fault in a comment is that of the script, if the lines before have no defect: it stands in the
line of the comment, and nothing behind it is read. -/
theorem parse_comment_of_blames (hw : ∀ x ∈ w.toList, Lexeme.isSpace x)
    (hc : Text.SingleLine c.toList) {a : String} {invs : List Invocation} (ha : parse a = .ok invs)
    {fault : ScanFault} {n : Nat} (hblames : Scan.Blames c fault n) (b : String) :
    ∃ e, parse (a ++ "\n" ++ w ++ "#" ++ c ++ "\n" ++ b) = .error (.scan e) ∧ e.fault = fault ∧
      e.position = a.utf8ByteSize + 1 + (w.utf8ByteSize + 1 + n) ∧
      e.location.line = lineEnds (a ++ "\n").toList + 1 := by
  obtain ⟨hsome, rfl⟩ := Lexeme.split_of_blames hblames
  have hcomment := Invocation.ofChars_comment_of_some hw hc hsome
  have hlines : (a ++ "\n").toList = a.toList ++ ['\n'] := String.toList_append
  unfold parse at ha
  rw [parse_comment, Invocation.ofChars_feed, Invocation.ofChars_feed, ha, hcomment]
  refine ⟨_, rfl, rfl, ?_, ?_⟩
  · show byteLength w.toList + 1 + _ + (byteLength a.toList + 1) = _
    rw [byteLength_toList, byteLength_toList, Nat.add_comm]
  · show (Location.ofPosition _ _).line + lineEnds (a.toList ++ ['\n']) = _
    have hone := Location.line_walk_of_singleLine (Invocation.singleLine_comment hw hc)
      Location.start false
    unfold Location.ofPosition
    rw [hone, hlines, Nat.add_comm]
    rfl

/-- Behind a comment without text an error stands further down. -/
theorem lt_line_of_parse_bare (hw : ∀ x ∈ w.toList, Lexeme.isSpace x) {a b : String}
    {invs : List Invocation} (ha : parse a = .ok invs) {e : ParseError}
    (he : parse (a ++ "\n" ++ w ++ "#" ++ "\n" ++ b) = .error e) :
    lineEnds (a ++ "\n").toList + 1 < e.location.line := by
  have hline := Invocation.singleLine_comment hw Text.singleLine_nil
  have hempty := Invocation.ofChars_comment hw Text.singleLine_nil
    (congrArg Prod.snd Lexeme.split_nil)
  obtain ⟨bytes, hbare⟩ := Invocation.exists_ofChars_between hline hempty a.toList b.toList
  have hlines : (a ++ "\n").toList = a.toList ++ ['\n'] := String.toList_append
  unfold parse at ha
  rw [parse_bareComment] at he
  rw [ha] at hbare
  cases hb : Invocation.ofChars b.toList with
  | ok others =>
    rw [hb] at hbare
    exact nomatch he.symm.trans hbare
  | error e' =>
    rw [hb] at hbare
    obtain rfl : e = _ := Except.error.inj (he.symm.trans hbare)
    have hpos : 0 < e'.location.line := ParseError.line_pos hb
    rw [ParseError.location_moved, hlines]
    show _ < e'.location.line + (lineEnds (a.toList ++ ['\n']) + 1)
    omega

/-- What a comment says does not matter, up to byte positions, just if its text can be scanned or
the lines before it have a defect, which then decides. Otherwise the script is refused, although it
holds no more than a comment does: the fault in the text is the error, in the line of the comment,
and what stands behind it is never read. -/
theorem comment_ignored_iff (hw : ∀ x ∈ w.toList, x = ' ' ∨ x = '\t')
    (hc : Text.SingleLine c.toList) (a b : String) :
    let full := parse (a ++ "\n" ++ w ++ "#" ++ c ++ "\n" ++ b)
    let bare := parse (a ++ "\n" ++ w ++ "#" ++ "\n" ++ b)
    (unplacedReading full = unplacedReading bare ↔
      (∃ e, parse a = .error e) ∨ Scan.Scannable c.toList) ∧
    (∀ e, parse a = .error e → full = .error e ∧ bare = .error e) ∧
    ∀ invs fault n, parse a = .ok invs → Scan.Blames c fault n →
      ∃ e, full = .error (.scan e) ∧ e.fault = fault ∧
        e.position = a.utf8ByteSize + 1 + (w.utf8ByteSize + 1 + n) ∧
        e.location.line = lineEnds (a ++ "\n").toList + 1 ∧
        ∀ e', bare = .error e' → e.location.line < e'.location.line := by
  intro full bare
  have hblank : ∀ x ∈ w.toList, Lexeme.isSpace x := fun x hx => Lexeme.isSpace_iff.2 (hw x hx)
  have hfull : full = _ := parse_comment a w c b
  have hbare : bare = _ := parse_bareComment a w b
  have hbefore : ∀ e, parse a = .error e → full = .error e ∧ bare = .error e := by
    intro e ha
    rw [hfull, hbare]
    exact ⟨Invocation.ofChars_feed_of_error ha _, Invocation.ofChars_feed_of_error ha _⟩
  refine ⟨⟨fun hsame => ?_, ?_⟩, hbefore, fun invs fault n ha hblames => ?_⟩
  · cases ha : parse a with
    | error e => exact .inl ⟨e, rfl⟩
    | ok invs =>
      refine .inr ?_
      by_contra hscan
      obtain ⟨fault, n, hblames⟩ := Lexeme.exists_blames_of_not_scannable hscan
      obtain ⟨e, he, -, -, hline⟩ := parse_comment_of_blames hblank hc ha hblames b
      obtain ⟨e', he', hlocation⟩ := exists_of_unplacedReading_eq_error (hsame.symm.trans
        (congrArg unplacedReading he))
      have hlt := lt_line_of_parse_bare hblank ha he'
      rw [hlocation] at hlt
      exact absurd hline (Nat.ne_of_gt hlt)
  · rintro (⟨e, ha⟩ | hscan)
    · rw [(hbefore e ha).1, (hbefore e ha).2]
    · rw [hfull, hbare]
      exact Invocation.unplacedReading_between (Invocation.singleLine_comment hblank hc)
        (Invocation.singleLine_comment hblank Text.singleLine_nil)
        (Invocation.ofChars_comment hblank hc (Lexeme.split_of_scannable hscan))
        (Invocation.ofChars_comment hblank Text.singleLine_nil
          (congrArg Prod.snd Lexeme.split_nil)) _ _
  · obtain ⟨e, he, hkind, hposition, hline⟩ := parse_comment_of_blames hblank hc ha hblames b
    exact ⟨e, he, hkind, hposition, hline,
      fun e' he' => hline ▸ lt_line_of_parse_bare hblank ha he'⟩

/-- The quote in the comment opens a string; the line feed before it joins a carriage return. -/
theorem comment_ignored_iff_quote :
    let a := "Pass\r"
    let w := "\t"
    let c := " \"x"
    (∀ x ∈ w.toList, x = ' ' ∨ x = '\t') ∧ Text.SingleLine c.toList ∧
      ¬ Scan.Scannable c.toList ∧
      unplacedReading (parse (a ++ "\n" ++ w ++ "#" ++ c ++ "\n" ++ "Pass")) ≠
        unplacedReading (parse (a ++ "\n" ++ w ++ "#" ++ "\n" ++ "Pass")) ∧
      ∃ e, parse (a ++ "\n" ++ w ++ "#" ++ c ++ "\n" ++ "Pass") = .error (.scan e) ∧
        e.fault = .unterminated ∧ e.position = 9 ∧ e.location.line = 2 := by
  intro a w c
  have hw : ∀ x ∈ w.toList, x = ' ' ∨ x = '\t' := by simp [w]
  have hc : Text.SingleLine c.toList := by decide
  have hfirst : parse a = .ok [⟨"Pass", [], 1, 0⟩] := by cbv
  have hopen : Scan.LeftOpen ['x'] :=
    .plain (by decide) (by decide) (by decide) (by decide) .inputEnd
  have hblames : Scan.Blames c .unterminated 1 :=
    ⟨[' '], ['"', 'x'], by decide, rfl, .outside ⟨by decide, .inl (by decide)⟩ .nil,
      .unterminated hopen⟩
  have hone : lineEnds (a ++ "\n").toList = 1 := by decide
  obtain ⟨hiff, -, hfault⟩ := comment_ignored_iff hw hc a "Pass"
  obtain ⟨e, he, hkind, hposition, hline, -⟩ := hfault _ _ _ hfirst hblames
  rw [hone] at hline
  refine ⟨hw, hc, hblames.not_scannable, fun hsame => ?_, e, he, hkind, hposition, hline⟩
  rcases hiff.1 hsame with ⟨e', he'⟩ | hscan
  · rw [hfirst] at he'
    cases he'
  · exact hblames.not_scannable hscan

/-- A single quote character in a comment, and a comment without text. -/
theorem comment_not_ignored :
    let c := "\""
    let full := parse ("" ++ "\n" ++ "" ++ "#" ++ c ++ "\n" ++ "")
    let bare := parse ("" ++ "\n" ++ "" ++ "#" ++ "\n" ++ "")
    Text.SingleLine c.toList ∧ full = .error (.scan ⟨.unterminated, 2, ⟨2, 2⟩⟩) ∧ bare = .ok [] ∧
      unplacedReading full ≠ unplacedReading bare := by
  intro c full bare
  have hfull : parse ("" ++ "\n" ++ "" ++ "#" ++ "\"" ++ "\n" ++ "") =
      .error (.scan ⟨.unterminated, 2, ⟨2, 2⟩⟩) := by cbv
  have hbare : parse ("" ++ "\n" ++ "" ++ "#" ++ "\n" ++ "") = .ok [] := by cbv
  refine ⟨by decide, hfull, hbare, fun hsame => ?_⟩
  obtain ⟨e, he, -⟩ := exists_of_unplacedReading_eq_error
    (hsame.symm.trans (congrArg unplacedReading hfull))
  cases hbare.symm.trans he

end Script

end Runbook
