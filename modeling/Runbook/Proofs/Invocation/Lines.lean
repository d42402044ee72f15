import Mathlib
import Runbook.Invocation.Parse
import Runbook.Proofs.Token.LineBreak

/-!
# Scripts are read line by line

A script with a line break in it says what the text before the break says, then what the text after
it says, the latter further down and further on (`ofChars_lineBreak`). The first text with a defect
decides the error, so a defect of the second shows only if the first has none. `parse_append` states
this of two scripts with a line feed between them. The line feed may also join a carriage return
that ends the first (`ofChars_feed`).

Reading a line looks at nothing but its tokens and the columns at which they stand, and neither
changes when the line is moved (`ofLine_moved`).
-/

namespace Runbook

open Text

/-! ## Moving what has been read -/

namespace Token

/-- The same token, so many bytes further on. -/
def moved (bytes : Nat) (t : Token) : Token := { t with position := t.position + bytes }

@[simp] theorem kind_moved (bytes : Nat) (t : Token) : (t.moved bytes).kind = t.kind := rfl

@[simp] theorem text_moved (bytes : Nat) (t : Token) : (t.moved bytes).text = t.text := rfl

@[simp] theorem lexeme_moved (bytes : Nat) (t : Token) : (t.moved bytes).lexeme = t.lexeme := rfl

@[simp] theorem endsLine_moved (bytes : Nat) (t : Token) :
    (t.moved bytes).endsLine = t.endsLine := rfl

theorem place_add (position bytes : Nat) (ls : List Lexeme) :
    place (position + bytes) ls = (place position ls).map (moved bytes) := by
  induction ls generalizing position with
  | nil => rfl
  | cons l ls ih =>
    rw [place, place, List.map_cons, ← ih, Nat.add_right_comm]
    rfl

end Token

/-- The same fault, so many lines further down and so many bytes further on. -/
def ScanError.moved (lines bytes : Nat) (e : ScanError) : ScanError :=
  ⟨e.fault, e.position + bytes, e.location.down lines⟩

/-- The same defect, so many lines further down and so many bytes further on. -/
def ParseError.moved (lines bytes : Nat) : ParseError → ParseError
  | .scan e => .scan (e.moved lines bytes)
  | .expectedName found kind location => .expectedName found kind (location.down lines)
  | .malformedName name location => .malformedName name (location.down lines)

/-- The same invocation, so many lines further down and so many bytes further on. -/
def Invocation.moved (lines bytes : Nat) (inv : Invocation) : Invocation :=
  { inv with line := inv.line + lines, position := inv.position + bytes }

/-! ## Scanning around a line break -/

namespace Scan

open Token Lexeme

variable {a w b : List Char}

/-- A fault before a line break hides all that stands behind it. -/
theorem ofChars_lineBreak_of_some (h : LineBreak a w b) {ls : List Lexeme} {fault : ScanFault}
    (ha : split a = (ls, some fault)) : ofChars (a ++ (w ++ b)) = ofChars a := by
  have hsplit := split_lineBreak h
  have hle := byteLength_joined_le a
  rw [ha] at hsplit hle
  rw [ofChars_of_some hsplit, ofChars_of_some ha, Location.ofPosition_append hle]

/-- Without a fault before a line break, the tokens before it, the line end and the tokens behind it
follow each other. -/
theorem ofChars_lineBreak_of_none (h : LineBreak a w b) {ls : List Lexeme}
    (ha : split a = (ls, none)) :
    ofChars (a ++ (w ++ b)) =
      ⟨place 0 ls ++ ofLexeme (byteLength a) ⟨.lineEnd, w⟩ ::
          (ofChars b).tokens.map (moved (byteLength a + byteLength w)),
        (ofChars b).error?.map
          (ScanError.moved (lineEnds a + 1) (byteLength a + byteLength w))⟩ := by
  have hsplit := split_lineBreak h
  have hjoined := joined_split (congrArg Prod.snd ha)
  rw [ha] at hsplit hjoined
  dsimp only at hsplit hjoined
  rcases hb : split b with ⟨ms, fault⟩
  rw [hb] at hsplit
  have hplace : place 0 (ls ++ ⟨.lineEnd, w⟩ :: ms) =
      place 0 ls ++ ofLexeme (byteLength a) ⟨.lineEnd, w⟩ ::
        (place 0 ms).map (moved (byteLength a + byteLength w)) := by
    rw [place_append, place, hjoined, ← place_add, Nat.zero_add, Nat.zero_add]
  cases fault with
  | none =>
    rw [ofChars_of_none hsplit, ofChars_of_none hb, hplace]
    simp [ofLexeme, moved, Nat.add_comm (byteLength b), Nat.add_assoc]
  | some fault =>
    rw [ofChars_of_some hsplit, ofChars_of_some hb, hplace]
    simp [ScanError.moved, joined_append, hjoined, Location.ofPosition_lineBreak h,
      Nat.add_comm (byteLength (joined ms)), Nat.add_assoc]

/-- A token is a lexeme with its place, or the end of the input. -/
theorem mem_tokens {t : Token} (h : t ∈ (ofChars a).tokens) :
    t ∈ place 0 (split a).1 ∨ t = ofLexeme (byteLength a) ⟨.inputEnd, []⟩ := by
  rcases ha : split a with ⟨ls, fault⟩
  cases fault with
  | none =>
    rw [ofChars_of_none ha, List.mem_append, List.mem_singleton] at h
    exact h
  | some fault =>
    rw [ofChars_of_some ha] at h
    exact .inl h

theorem position_le {t : Token} (h : t ∈ (ofChars a).tokens) : t.position ≤ byteLength a := by
  rcases mem_tokens h with h | rfl
  · obtain ⟨xs, l, ys, hls, rfl⟩ := mem_place h
    have hle := byteLength_joined_le a
    rw [hls, joined_append, byteLength_append] at hle
    exact Nat.le_trans (by simp [ofLexeme]) hle
  · exact Nat.le_refl _

end Scan

/-! ## Lines of tokens -/

namespace Token

theorem length_lines (ts : List Token) : (lines ts).length = ts.countP (·.endsLine) := by
  induction ts with
  | nil => rfl
  | cons t ts ih =>
    rw [lines, List.countP_cons, ← ih]
    by_cases ht : t.endsLine
    · rw [if_pos ht, if_pos ht, List.length_cons]
    · rw [if_neg ht, if_neg ht]
      cases lines ts <;> rfl

/-- A token that ends a line parts the lines before it from those behind it. -/
theorem lines_append {e : Token} (he : e.endsLine) (ts us : List Token) :
    lines (ts ++ e :: us) = lines (ts ++ [e]) ++ lines us := by
  induction ts with
  | nil => simp [lines, he]
  | cons t ts ih =>
    rw [List.cons_append, List.cons_append, lines, lines, ih]
    by_cases ht : t.endsLine
    · rw [if_pos ht, if_pos ht, List.cons_append]
    · rw [if_neg ht, if_neg ht]
      have hlength := length_lines (ts ++ [e])
      rw [List.countP_append, List.countP_singleton, if_pos he] at hlength
      cases hlines : lines (ts ++ [e]) with
      | nil =>
        rw [hlines] at hlength
        nomatch hlength
      | cons l ls => rfl

/-- Which token ends the last line does not matter. -/
theorem lines_concat {e f : Token} (he : e.endsLine) (hf : f.endsLine) (ts : List Token) :
    lines (ts ++ [e]) = lines (ts ++ [f]) := by
  induction ts with
  | nil => simp [lines, he, hf]
  | cons t ts ih => rw [List.cons_append, List.cons_append, lines, lines, ih]

theorem lines_of_inLine {ts : List Token} (h : ∀ t ∈ ts, t.endsLine = false) : lines ts = [] := by
  rw [← List.length_eq_zero_iff, length_lines, List.countP_eq_zero]
  exact fun t ht => Bool.eq_false_iff.1 (h t ht)

theorem lines_concat_of_inLine {e : Token} (he : e.endsLine) {ts : List Token}
    (h : ∀ t ∈ ts, t.endsLine = false) : lines (ts ++ [e]) = [ts] := by
  induction ts with
  | nil => simp [lines, he]
  | cons t ts ih =>
    obtain ⟨ht, hts⟩ := List.forall_mem_cons.1 h
    rw [List.cons_append, lines, ih hts, if_neg (by simp [ht])]

theorem mem_of_mem_lines {t : Token} {ts us : List Token} (hts : ts ∈ lines us) (ht : t ∈ ts) :
    t ∈ us ∧ t.endsLine = false := by
  induction us generalizing ts with
  | nil => nomatch hts
  | cons u us ih =>
    rw [lines] at hts
    by_cases hu : u.endsLine
    · rw [if_pos hu, List.mem_cons] at hts
      rcases hts with rfl | hts
      · nomatch ht
      · exact ⟨List.mem_cons_of_mem u (ih hts ht).1, (ih hts ht).2⟩
    · rw [if_neg hu] at hts
      cases hlines : lines us with
      | nil =>
        rw [hlines] at hts
        nomatch hts
      | cons l ls =>
        rw [hlines, List.mem_cons] at hts
        rcases hts with rfl | hts
        · rcases List.mem_cons.1 ht with rfl | ht
          · exact ⟨List.mem_cons_self, (Bool.not_eq_true _).mp hu⟩
          · have := ih (hlines ▸ List.mem_cons_self) ht
            exact ⟨List.mem_cons_of_mem u this.1, this.2⟩
        · have := ih (hlines ▸ List.mem_cons_of_mem l hts) ht
          exact ⟨List.mem_cons_of_mem u this.1, this.2⟩

theorem lines_map_moved (bytes : Nat) (ts : List Token) :
    lines (ts.map (moved bytes)) = (lines ts).map (List.map (moved bytes)) := by
  induction ts with
  | nil => rfl
  | cons t ts ih =>
    rw [List.map_cons, lines, lines, ih, endsLine_moved]
    by_cases ht : t.endsLine
    · rw [if_pos ht, if_pos ht]
      rfl
    · rw [if_neg ht, if_neg ht]
      cases lines ts <;> rfl

theorem groups_map_moved (bytes : Nat) (ts : List Token) :
    groups (ts.map (moved bytes)) = (groups ts).map (List.map (moved bytes)) := by
  induction ts with
  | nil => rfl
  | cons t ts ih =>
    cases ts with
    | nil =>
      rw [List.map_cons, List.map_nil, groups.eq_2, groups.eq_2, kind_moved]
      split <;> rfl
    | cons u us =>
      rw [List.map_cons] at ih
      rw [List.map_cons, List.map_cons, groups, groups, ih, kind_moved, kind_moved]
      split
      · rfl
      · split
        · rfl
        · cases groups (u :: us) <;> rfl

end Token

theorem Argument.ofTokens_map_moved (bytes : Nat) (ts : List Token) :
    Argument.ofTokens (ts.map (Token.moved bytes)) = Argument.ofTokens ts := by
  unfold Argument.ofTokens
  rw [List.foldr_map]
  rfl

/-! ## Reading lines -/

namespace Invocation

variable {source source' : List Char} {bytes : Nat}

/-- The columns at which a text has the tokens are those at which another has them, so many bytes
further on. -/
def SameColumns (source source' : List Char) (bytes : Nat) (ts : List Token) : Prop :=
  ∀ t ∈ ts, (Location.ofPosition source' (t.position + bytes)).column =
    (Location.ofPosition source t.position).column

/-- A line says the same wherever it stands, as long as its columns stay. -/
theorem ofLine_moved {ts : List Token} (h : SameColumns source source' bytes ts)
    (lines line : Nat) :
    ofLine source' (line + lines) (ts.map (Token.moved bytes)) =
      ((ofLine source line ts).mapError (ParseError.moved lines bytes)).map
        (Option.map (Invocation.moved lines bytes)) := by
  have hblank : ((fun t : Token => decide (t.kind = .blank)) ∘ Token.moved bytes) =
      fun t => decide (t.kind = .blank) := rfl
  have harguments : Argument.ofTokens ∘ List.map (Token.moved bytes) = Argument.ofTokens :=
    funext (Argument.ofTokens_map_moved bytes)
  unfold ofLine
  rw [List.dropWhile_map, hblank]
  cases hts : ts.dropWhile (·.kind = .blank) with
  | nil => rfl
  | cons head rest =>
    have hhead : head ∈ ts := (List.dropWhile_sublist _).mem (by rw [hts]; exact List.mem_cons_self)
    have hlocate : locate source' (line + lines) (head.moved bytes) =
        (locate source line head).down lines := by
      unfold locate Location.down
      rw [← h head hhead]
      rfl
    have hnext : (rest.map (Token.moved bytes)).head?.any (·.kind ≠ .blank) =
        rest.head?.any (·.kind ≠ .blank) := by
      cases rest <;> rfl
    rw [List.map_cons]
    dsimp only
    rw [hlocate, hnext, Token.groups_map_moved, List.map_map, harguments, Token.kind_moved,
      Token.text_moved, Token.lexeme_moved]
    split
    · split <;> rfl
    · split <;> rfl

theorem ofLines_moved {tss : List (List Token)}
    (h : ∀ ts ∈ tss, SameColumns source source' bytes ts) (lines line : Nat) :
    ofLines source' (line + lines) (tss.map (List.map (Token.moved bytes))) =
      ((ofLines source line tss).mapError (ParseError.moved lines bytes)).map
        (List.map (Invocation.moved lines bytes)) := by
  induction tss generalizing line with
  | nil => rfl
  | cons ts tss ih =>
    have hfirst := ofLine_moved (h ts List.mem_cons_self) lines line
    have hothers := ih (fun us hus => h us (List.mem_cons_of_mem ts hus)) (line + 1)
    rw [Nat.add_right_comm] at hothers
    rw [List.map_cons, ofLines, ofLines, hfirst, hothers]
    cases ofLine source line ts with
    | error e => rfl
    | ok first =>
      cases ofLines source (line + 1) tss with
      | error e => rfl
      | ok others => cases first <;> rfl

/-- Lines with their columns kept say the same in another text. -/
theorem ofLines_congr {tss : List (List Token)} (h : ∀ ts ∈ tss, SameColumns source source' 0 ts)
    (line : Nat) : ofLines source' line tss = ofLines source line tss := by
  have hmoved := ofLines_moved h 0 line
  have htokens : List.map (Token.moved 0) = id := funext List.map_id
  have hinvocations : List.map (Invocation.moved 0 0) = id := funext List.map_id
  have herrors : ParseError.moved 0 0 = id := by
    funext e
    cases e <;> rfl
  rw [htokens, hinvocations, herrors, List.map_id, Nat.add_zero] at hmoved
  rw [hmoved]
  cases ofLines source line tss <;> rfl

theorem ofLines_append (source : List Char) (line : Nat) (xs ys : List (List Token)) :
    ofLines source line (xs ++ ys) = do
      let first ← ofLines source line xs
      let others ← ofLines source (line + xs.length) ys
      return first ++ others := by
  induction xs generalizing line with
  | nil =>
    rw [List.nil_append, List.length_nil, Nat.add_zero]
    cases ofLines source line ys <;> rfl
  | cons ts xs ih =>
    rw [List.cons_append, ofLines, ofLines, ih, List.length_cons, Nat.add_assoc, Nat.add_comm 1]
    simp only [bind_assoc, pure_bind, List.append_assoc]

/-! ## Scripts of one line -/

theorem inLine_of_singleLine {cs : List Char} (h : SingleLine cs) :
    ∀ t ∈ Token.place 0 (Lexeme.split cs).1, t.endsLine = false := by
  intro t ht
  obtain ⟨xs, l, ys, hsplit, rfl⟩ := Token.mem_place ht
  refine Lexeme.endsLine_of_singleLine h (l := l) ?_
  rw [hsplit]
  simp

/-- A script of one line without a fault says what its tokens say. -/
theorem ofChars_of_singleLine {cs : List Char} (h : SingleLine cs) {ls : List Lexeme}
    (hsplit : Lexeme.split cs = (ls, none)) :
    ofChars cs = (ofLine cs 1 (Token.place 0 ls)).map Option.toList := by
  have hin := inLine_of_singleLine h
  rw [hsplit] at hin
  unfold ofChars
  rw [Scan.ofChars_of_none hsplit]
  dsimp only
  rw [Token.lines_concat_of_inLine rfl hin, ofLines]
  cases ofLine cs 1 (Token.place 0 ls) with
  | error e => rfl
  | ok first => exact congrArg Except.ok (List.append_nil _)

/-- With a fault a script of one line has no line that ends, so nothing of it is read but the
fault. -/
theorem ofChars_of_singleLine_of_some {cs : List Char} (h : SingleLine cs) {ls : List Lexeme}
    {fault : ScanFault} (hsplit : Lexeme.split cs = (ls, some fault)) :
    let stop := byteLength (Lexeme.joined ls)
    ofChars cs = .error (.scan ⟨fault, stop, Location.ofPosition cs stop⟩) := by
  have hin := inLine_of_singleLine h
  rw [hsplit] at hin
  unfold ofChars
  rw [Scan.ofChars_of_some hsplit]
  dsimp only
  rw [Token.lines_of_inLine hin]
  rfl

/-! ## Scripts with a line break -/

/-- The lines of a text keep their columns whatever follows the text. -/
theorem sameColumns_append (a rest : List Char) :
    ∀ ts ∈ Token.lines (Scan.ofChars a).tokens, SameColumns a (a ++ rest) 0 ts := by
  intro ts hts t ht
  have hle := Scan.position_le (Token.mem_of_mem_lines hts ht).1
  rw [Nat.add_zero, Location.ofPosition_append hle]

/-- A script with a line break says what the text before it says, then what the text behind it says,
so many lines further down and so many bytes further on. A defect of the first text hides those of
the second. -/
theorem ofChars_lineBreak {a w b : List Char} (h : LineBreak a w b) :
    ofChars (a ++ (w ++ b)) = do
      let first ← ofChars a
      let others ← (ofChars b).mapError
        (ParseError.moved (lineEnds a + 1) (byteLength a + byteLength w))
      return first ++
        others.map (Invocation.moved (lineEnds a + 1) (byteLength a + byteLength w)) := by
  unfold ofChars
  rcases ha : Lexeme.split a with ⟨ls, fault⟩
  cases fault with
  | none =>
    have hcount := Lexeme.countP_split (congrArg Prod.snd ha)
    have hlines : Token.lines (Token.place 0 ls ++ [Token.ofLexeme (byteLength a) ⟨.lineEnd, w⟩]) =
        Token.lines (Scan.ofChars a).tokens := by
      rw [Scan.ofChars_of_none ha]
      exact Token.lines_concat rfl rfl _
    have hlength : (Token.lines (Scan.ofChars a).tokens).length = lineEnds a + 1 := by
      rw [Token.length_lines, Scan.ofChars_of_none ha, List.countP_append,
        Token.countP_place_endsLine, ← hcount, ha]
      rfl
    have hcolumns : ∀ ts ∈ Token.lines (Scan.ofChars b).tokens,
        SameColumns b (a ++ (w ++ b)) (byteLength a + byteLength w) ts := by
      intro ts hts t ht
      rw [Nat.add_comm, Nat.add_assoc, Location.ofPosition_lineBreak h]
      rfl
    rw [Scan.ofChars_lineBreak_of_none h ha]
    dsimp only
    rw [Token.lines_append rfl, hlines, Token.lines_map_moved, ofLines_append, hlength,
      ofLines_congr (sameColumns_append a (w ++ b)), ofLines_moved hcolumns,
      Scan.ofChars_of_none ha]
    cases ofLines a 1 _ with
    | error e => rfl
    | ok first =>
      cases ofLines b 1 (Token.lines (Scan.ofChars b).tokens) with
      | error e => rfl
      | ok others => cases (Scan.ofChars b).error? <;> rfl
  | some fault =>
    rw [Scan.ofChars_lineBreak_of_some h ha]
    dsimp only
    rw [ofLines_congr (sameColumns_append a (w ++ b)), Scan.ofChars_of_some ha]
    cases ofLines a 1 _ <;> rfl

theorem ofChars_nil : ofChars [] = .ok [] := by
  unfold ofChars
  rw [Scan.ofChars_of_none Lexeme.split_nil]
  rfl

/-- A carriage return at the end of a script ends its last line and opens no other. -/
theorem ofChars_concat_return (a : List Char) : ofChars (a ++ ['\r']) = ofChars a := by
  have hbreak : LineBreak a ['\r'] [] := .carriageReturn nofun
  have hlaw := ofChars_lineBreak hbreak
  rw [List.append_nil, ofChars_nil] at hlaw
  rw [hlaw]
  cases ofChars a with
  | error e => rfl
  | ok first => exact congrArg Except.ok (List.append_nil first)

/-- Two scripts with a line feed between them; the line feed joins a carriage return that ends the
first. -/
theorem ofChars_feed (a b : List Char) :
    let lines := lineEnds (a ++ ['\n'])
    let bytes := byteLength a + 1
    ofChars (a ++ ('\n' :: b)) = do
      let first ← ofChars a
      let others ← (ofChars b).mapError (ParseError.moved lines bytes)
      return first ++ others.map (Invocation.moved lines bytes) := by
  intro lines bytes
  by_cases hlast : a.getLast? = some '\r'
  · obtain ⟨init, rfl⟩ := List.getLast?_eq_some_iff.1 hlast
    have hbreak : LineBreak init ['\r', '\n'] b := .returnFeed
    have hlines : lines = lineEnds init + 1 := by
      rw [← Location.lineEnds_lineBreak hbreak]
      exact congrArg lineEnds (List.append_assoc init ['\r'] ['\n'])
    have hbytes : bytes = byteLength init + byteLength ['\r', '\n'] := by
      show byteLength (init ++ ['\r']) + 1 = _
      rw [byteLength_append]
      rfl
    have hlaw := ofChars_lineBreak hbreak
    rw [← hlines, ← hbytes] at hlaw
    rw [ofChars_concat_return, List.append_assoc]
    exact hlaw
  · have hbreak : LineBreak a ['\n'] b := .feed hlast
    have hlines : lines = lineEnds a + 1 := Location.lineEnds_lineBreak hbreak
    rw [hlines]
    exact ofChars_lineBreak hbreak

end Invocation

/-- Two scripts with a line feed between them: a defect of the first is that of the whole. Otherwise
a defect of the second is, in the same column, as many lines further down as the first script and
the line feed have line ends, and as many bytes further on as they have. Without a defect the
invocations follow each other, those of the second moved alike. -/
theorem parse_append (a b : String) (h : a.toList.getLast? ≠ some '\r') :
    let lines := lineEnds a.toList + 1
    let bytes := a.utf8ByteSize + 1
    parse (a ++ "\n" ++ b) = do
      let first ← parse a
      let others ← (parse b).mapError (ParseError.moved lines bytes)
      return first ++ others.map (Invocation.moved lines bytes) := by
  intro lines bytes
  have hsource : (a ++ "\n" ++ b).toList = a.toList ++ (['\n'] ++ b.toList) := by
    rw [String.toList_append, String.toList_append, List.append_assoc]
    rfl
  have hbreak : LineBreak a.toList ['\n'] b.toList := .feed h
  have hlaw := Invocation.ofChars_lineBreak hbreak
  unfold parse
  rw [hsource, hlaw, byteLength_toList]
  rfl

/-- The string that the second script leaves open stands in its second line, the fourth of both. -/
theorem parse_append_unterminated :
    let a := "Echo \"\u00e9\"\r\nFail"
    let b := "Echo ok\nEcho \"open"
    a.toList.getLast? ≠ some '\r' ∧
      parse b = .error (.scan ⟨.unterminated, 13, ⟨2, 6⟩⟩) ∧
      parse (a ++ "\n" ++ b) = .error (.scan ⟨.unterminated, 29, ⟨4, 6⟩⟩) := by
  intro a b
  have ha : a.toList.getLast? ≠ some '\r' := by decide
  have hfirst : parse a =
      .ok [⟨"Echo", [⟨[.literal "\u00e9"]⟩], 1, 0⟩, ⟨"Fail", [], 2, 11⟩] := by cbv
  have hsecond : parse b = .error (.scan ⟨.unterminated, 13, ⟨2, 6⟩⟩) := by cbv
  have hlines : lineEnds a.toList = 1 := by decide
  have hbytes : a.utf8ByteSize = 15 := by decide
  refine ⟨ha, hsecond, ?_⟩
  rw [parse_append a b ha, hfirst, hsecond, hlines, hbytes]
  rfl

end Runbook
