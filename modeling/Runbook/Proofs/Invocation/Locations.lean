import Mathlib
import Runbook.Proofs.Invocation.WellFormed
import Runbook.Proofs.Text.ReadingOrder
import Runbook.Proofs.Token.Locations

/-!
# Where invocations and errors stand

Reading a script counts lines by the tokens that end them, and it looks up columns by going over
characters. Both ways lead to the same location: a token in the line number `n` has `n - 1` line
ends before it (`exists_of_lines_eq`), and `Scan.line_of_items` says that its characters are in that
line. So an invocation stands where its line and its position say, and an error is located exactly
where the token or the fault is that it is about (`parse_locations`).
-/

namespace Runbook

open Text

/-! ## What an error is about -/

namespace ParseError

/-- The location that an error reports. -/
def location : ParseError → Location
  | .scan e => e.location
  | .expectedName _ _ location => location
  | .malformedName _ location => location

/-- The characters that an error reports: the opening quote of a string that is left open, an
invalid character, or the lexeme or name found. -/
def reported : ParseError → List Char
  | .scan e =>
    match e.fault with
    | .unterminated => ['"']
    | .invalid c => [c]
  | .expectedName found _ _ => found.toList
  | .malformedName name _ => name.toList

end ParseError

/-- Nothing but blanks stands between the last line end and the end of the tokens. -/
def Token.LeadsLine (ts : List Token) : Prop :=
  ∃ front blanks, ts = front ++ blanks ∧ (∀ t ∈ blanks, t.kind = .blank) ∧
    ∀ t, front.getLast? = some t → t.kind = .lineEnd

/-- The token is the first of a line, blanks apart, and the others stand behind it. -/
def Token.Heads (t : Token) (rest ts : List Token) : Prop :=
  t.kind ≠ .blank ∧ ∃ blanks, ts = blanks ++ t :: rest ∧ ∀ b ∈ blanks, b.kind = .blank

/-- The item between the others is the one that an error is about: a fault of scanning is itself
such an item; otherwise it is the first token of a line, blanks apart, and either it is no word and
does not start a comment, or it is a word with a token other than a blank right behind it. -/
inductive ParseError.IsAbout (before : List Token) :
    Except ScanError Token → List (Except ScanError Token) → ParseError → Prop where
  | fault {e : ScanError} : IsAbout before (.error e) [] (.scan e)
  | expectedName {t : Token} {after : List (Except ScanError Token)} {location : Location} :
      Token.LeadsLine before → t.kind ≠ .word → ¬ (t.kind = .symbol ∧ t.text = "#") →
      IsAbout before (.ok t) after (.expectedName t.lexeme t.kind location)
  | malformedName {t u : Token} {after : List (Except ScanError Token)} {location : Location} :
      Token.LeadsLine before → t.kind = .word → u.kind ≠ .blank → u.endsLine = false →
      IsAbout before (.ok t) (.ok u :: after) (.malformedName t.text location)

/-! ## The lines of a row of tokens -/

namespace Token

theorem heads_iff {t : Token} {rest ts : List Token} :
    t.Heads rest ts ↔ ts.dropWhile (·.kind = .blank) = t :: rest := by
  constructor
  · rintro ⟨ht, blanks, rfl, hblanks⟩
    rw [List.dropWhile_append_of_pos (by simpa using hblanks),
      List.dropWhile_cons_of_neg (by simpa using ht)]
  · intro h
    refine ⟨?_, ts.takeWhile (·.kind = .blank), ?_, ?_⟩
    · have hhead := List.head?_dropWhile_not (fun t : Token => decide (t.kind = .blank)) ts
      rw [h] at hhead
      simpa using hhead
    · rw [← h, List.takeWhile_append_dropWhile]
    · intro b hb
      simpa using List.mem_takeWhile_imp hb

theorem Heads.mem_of_mem {t u : Token} {rest ts : List Token} (h : t.Heads rest ts)
    (hu : u ∈ rest) : u ∈ ts := by
  obtain ⟨-, blanks, rfl, -⟩ := h
  exact List.mem_append_right blanks (List.mem_cons_of_mem t hu)

theorem Heads.mem {t : Token} {rest ts : List Token} (h : t.Heads rest ts) : t ∈ ts := by
  obtain ⟨-, blanks, rfl, -⟩ := h
  exact List.mem_append_right blanks List.mem_cons_self

theorem blank_or_heads (ts : List Token) :
    (∀ t ∈ ts, t.kind = .blank) ∨ ∃ t rest, Heads t rest ts := by
  cases h : ts.dropWhile (·.kind = .blank) with
  | nil => exact .inl (by simpa [List.dropWhile_eq_nil_iff] using h)
  | cons t rest => exact .inr ⟨t, rest, heads_iff.2 h⟩

theorem lines_eq_cons {ts l : List Token} {ls : List (List Token)} (h : lines ts = l :: ls) :
    ∃ e rest, ts = l ++ e :: rest ∧ e.endsLine ∧ lines rest = ls := by
  induction ts generalizing l with
  | nil => cases h
  | cons t ts ih =>
    rw [lines] at h
    by_cases ht : t.endsLine
    · rw [if_pos ht] at h
      obtain ⟨rfl, rfl⟩ := List.cons.inj h
      exact ⟨t, ts, rfl, ht, rfl⟩
    · rw [if_neg ht] at h
      cases hlines : lines ts with
      | nil =>
        rw [hlines] at h
        cases h
      | cons m ms =>
        rw [hlines] at h
        obtain ⟨rfl, rfl⟩ := List.cons.inj h
        obtain ⟨e, rest, rfl, he, hrest⟩ := ih hlines
        exact ⟨e, rest, rfl, he, hrest⟩

/-- Before the tokens of a line stand as many that end a line as there are lines before, and one of
these comes last. -/
theorem exists_of_lines_eq {ts l : List Token} {xs ys : List (List Token)}
    (h : lines ts = xs ++ l :: ys) :
    ∃ before e after, ts = before ++ (l ++ e :: after) ∧ e.endsLine ∧
      before.countP (·.endsLine) = xs.length ∧ ∀ f, before.getLast? = some f → f.endsLine := by
  induction xs generalizing ts with
  | nil =>
    obtain ⟨e, after, hts, he, -⟩ := lines_eq_cons h
    exact ⟨[], e, after, hts, he, rfl, nofun⟩
  | cons x xs ih =>
    have hx : x.countP (·.endsLine) = 0 := by
      rw [List.countP_eq_zero]
      intro t ht
      have hmem : x ∈ lines ts := by
        rw [h]
        exact List.mem_cons_self
      simpa using (mem_of_mem_lines hmem ht).2
    obtain ⟨d, rest, rfl, hd, hrest⟩ := lines_eq_cons h
    obtain ⟨before, e, after, rfl, he, hcount, hlast⟩ := ih hrest
    refine ⟨x ++ d :: before, e, after, by simp, he, ?_, ?_⟩
    · rw [List.countP_append, List.countP_cons, hx, hcount, if_pos hd, List.length_cons]
      omega
    · intro f hf
      rcases List.eq_nil_or_concat before with rfl | ⟨init, g, rfl⟩
      · obtain rfl : d = f := by simpa using hf
        exact hd
      · rw [List.concat_eq_append] at hf hlast
        rw [← List.cons_append, ← List.append_assoc, List.getLast?_concat] at hf
        apply hlast
        rw [List.getLast?_concat]
        exact hf

end Token

/-! ## Reading a line -/

namespace Invocation

variable {source : List Char} {line : Nat} {ts : List Token} {tss : List (List Token)}

/-- A line names no function: its first token, blanks apart, is no word and does not start a
comment, or it is a word with a token other than a blank right behind it. -/
inductive Defect (source : List Char) (line : Nat) (ts : List Token) : ParseError → Prop where
  | expectedName {t : Token} {rest : List Token} :
      t.Heads rest ts → t.kind ≠ .word → ¬ (t.kind = .symbol ∧ t.text = "#") →
      Defect source line ts (.expectedName t.lexeme t.kind (locate source line t))
  | malformedName {t u : Token} {rest : List Token} :
      t.Heads (u :: rest) ts → t.kind = .word → u.kind ≠ .blank →
      Defect source line ts (.malformedName t.text (locate source line t))

/-- A line says what its first token, blanks apart, lets it say. -/
theorem ofLine_of_heads {head : Token} {rest : List Token} (h : head.Heads rest ts) :
    ofLine source line ts =
      if head.kind = .word then
        if rest.head?.any (·.kind ≠ .blank) then
          .error (.malformedName head.text (locate source line head))
        else .ok (some ⟨head.text, (Token.groups rest).map Argument.ofTokens, line, head.position⟩)
      else if head.kind = .symbol ∧ head.text = "#" then .ok none
      else .error (.expectedName head.lexeme head.kind (locate source line head)) := by
  unfold ofLine
  rw [Token.heads_iff.1 h]

theorem ofLine_of_blank (h : ∀ t ∈ ts, t.kind = .blank) : ofLine source line ts = .ok none := by
  have hnil : ts.dropWhile (·.kind = .blank) = [] := by
    simpa [List.dropWhile_eq_nil_iff] using h
  unfold ofLine
  rw [hnil]

/-- An invocation is named by the first token of its line, blanks apart. -/
theorem ofLine_eq_some_iff {inv : Invocation} :
    ofLine source line ts = .ok (some inv) ↔
      ∃ head rest, Token.Heads head rest ts ∧ head.kind = .word ∧
        (∀ u ∈ rest.head?, u.kind = .blank) ∧
        inv = ⟨head.text, (Token.groups rest).map Argument.ofTokens, line, head.position⟩ := by
  constructor
  · intro h
    rcases Token.blank_or_heads ts with hblank | ⟨head, rest, hheads⟩
    · rw [ofLine_of_blank hblank] at h
      nomatch h
    · rw [ofLine_of_heads hheads] at h
      split at h
      · rename_i hword
        split at h
        · nomatch h
        · rename_i hnext
          refine ⟨head, rest, hheads, hword, ?_, (Option.some.inj (Except.ok.inj h)).symm⟩
          simpa [Option.any_eq_false] using hnext
      · split at h <;> nomatch h
  · rintro ⟨head, rest, hheads, hword, hnext, rfl⟩
    rw [ofLine_of_heads hheads, if_pos hword, if_neg (by simpa [Option.any_eq_false] using hnext)]

/-- A line that can not be read has a defect at its first token, blanks apart. -/
theorem ofLine_eq_error_iff {e : ParseError} :
    ofLine source line ts = .error e ↔ Defect source line ts e := by
  constructor
  · intro h
    rcases Token.blank_or_heads ts with hblank | ⟨head, rest, hheads⟩
    · rw [ofLine_of_blank hblank] at h
      nomatch h
    · rw [ofLine_of_heads hheads] at h
      split at h
      · rename_i hword
        split at h
        · rename_i hnext
          cases rest with
          | nil => nomatch hnext
          | cons u us =>
            obtain rfl := Except.error.inj h
            exact .malformedName hheads hword (by simpa using hnext)
        · nomatch h
      · rename_i hword
        split at h
        · nomatch h
        · rename_i hcomment
          obtain rfl := Except.error.inj h
          exact .expectedName hheads hword hcomment
  · rintro (⟨hheads, hword, hcomment⟩ | ⟨hheads, hword, hu⟩)
    · rw [ofLine_of_heads hheads, if_neg hword, if_neg hcomment]
    · rw [ofLine_of_heads hheads, if_pos hword, if_pos (by simpa using hu)]

/-! ## Reading lines -/

theorem exists_line_of_mem {invs : List Invocation} (h : ofLines source line tss = .ok invs)
    {inv : Invocation} (hinv : inv ∈ invs) :
    ∃ xs ts ys, tss = xs ++ ts :: ys ∧ ofLine source (line + xs.length) ts = .ok (some inv) := by
  induction tss generalizing line invs with
  | nil =>
    obtain rfl := Except.ok.inj h
    nomatch hinv
  | cons ts tss ih =>
    obtain ⟨first, others, hfirst, hothers, rfl⟩ := ofLines_cons_of_ok h
    rcases List.mem_append.1 hinv with hinv | hinv
    · obtain rfl := Option.mem_toList.1 hinv
      exact ⟨[], ts, tss, rfl, hfirst⟩
    · obtain ⟨xs, us, ys, rfl, hus⟩ := ih hothers hinv
      refine ⟨ts :: xs, us, ys, rfl, ?_⟩
      rw [List.length_cons, Nat.add_comm xs.length, ← Nat.add_assoc]
      exact hus

/-- The first line with a defect decides the error. -/
theorem ofLines_eq_error_iff {e : ParseError} :
    ofLines source line tss = .error e ↔
      ∃ xs ts ys found, tss = xs ++ ts :: ys ∧ ofLines source line xs = .ok found ∧
        ofLine source (line + xs.length) ts = .error e := by
  constructor
  · intro h
    induction tss generalizing line with
    | nil => cases h
    | cons ts tss ih =>
      rw [ofLines] at h
      cases hfirst : ofLine source line ts with
      | error e' =>
        rw [hfirst] at h
        obtain rfl := Except.error.inj h
        exact ⟨[], ts, tss, [], rfl, rfl, hfirst⟩
      | ok first =>
        cases hothers : ofLines source (line + 1) tss with
        | ok others =>
          rw [hfirst, hothers] at h
          cases h
        | error e' =>
          rw [hfirst, hothers] at h
          obtain rfl := Except.error.inj h
          obtain ⟨xs, us, ys, found, rfl, hxs, hus⟩ := ih hothers
          refine ⟨ts :: xs, us, ys, first.toList ++ found, rfl, ?_, ?_⟩
          · rw [ofLines, hfirst, hxs]
            rfl
          · rw [List.length_cons, Nat.add_comm xs.length, ← Nat.add_assoc]
            exact hus
  · rintro ⟨xs, ts, ys, found, rfl, hxs, hts⟩
    rw [ofLines_append, hxs, ofLines, hts]
    rfl

/-- A line is read after those before it, so each invocation is in a line below the one before. -/
theorem pairwise_line {invs : List Invocation} (h : ofLines source line tss = .ok invs) :
    invs.Pairwise fun a b => a.line < b.line := by
  induction tss generalizing line invs with
  | nil =>
    obtain rfl := Except.ok.inj h
    exact .nil
  | cons ts tss ih =>
    obtain ⟨first, others, hfirst, hothers, rfl⟩ := ofLines_cons_of_ok h
    cases first with
    | none => exact ih hothers
    | some inv =>
      refine List.Pairwise.cons ?_ (ih hothers)
      intro other hother
      obtain ⟨-, -, -, -, -, rfl⟩ := ofLine_eq_some_iff.1 hfirst
      obtain ⟨xs, us, -, -, hus⟩ := exists_line_of_mem hothers hother
      obtain ⟨-, -, -, -, -, rfl⟩ := ofLine_eq_some_iff.1 hus
      dsimp only
      omega

/-! ## Locations of what is read -/

section Script

variable {source : String} {xs ys : List (List Token)} {ts rest : List Token} {head : Token}

theorem inLine_of_lines (h : Token.lines (Scan.ofString source).tokens = xs ++ ts :: ys) :
    ∀ t ∈ ts, t.endsLine = false := by
  have hline : ts ∈ Token.lines (Scan.ofString source).tokens := by
    rw [h]
    exact List.mem_append_right xs List.mem_cons_self
  exact fun t ht => (Token.mem_of_mem_lines hline ht).2

/-- Before the first token of a line, blanks apart, stand as many line ends as there are lines
before. -/
theorem exists_items_of_heads (h : Token.lines (Scan.ofString source).tokens = xs ++ ts :: ys)
    (hheads : head.Heads rest ts) :
    ∃ before after,
      (Scan.ofString source).items = before.map .ok ++ .ok head :: (rest.map .ok ++ after) ∧
      Token.LeadsLine before ∧ before.countP (·.kind = .lineEnd) = xs.length := by
  obtain ⟨-, blanks, rfl, hblanks⟩ := hheads
  obtain ⟨before, e, after, htokens, -, hcount, hlast⟩ := Token.exists_of_lines_eq h
  have hitems : (Scan.ofString source).items = (before ++ blanks).map .ok ++
      .ok head :: (rest.map .ok ++ .ok e ::
        (after.map .ok ++ (Scan.ofString source).error?.toList.map .error)) := by
    unfold Scan.items
    rw [htokens]
    simp
  have hends : ∀ t ∈ before, t.endsLine = decide (t.kind = .lineEnd) :=
    fun t ht => Scan.endsLine_of_items hitems t (List.mem_append_left blanks ht)
  have hnone : blanks.countP (·.kind = .lineEnd) = 0 := by
    rw [List.countP_eq_zero]
    intro b hb hend
    rw [decide_eq_true_eq, hblanks b hb] at hend
    nomatch hend
  refine ⟨before ++ blanks, _, hitems, ⟨before, blanks, rfl, hblanks, ?_⟩, ?_⟩
  · intro t ht
    have hmem := List.mem_of_getLast? ht
    exact of_decide_eq_true ((hends t hmem).symm.trans (hlast t ht))
  · rw [List.countP_append, hnone, ← hcount, Nat.add_zero]
    exact (List.countP_congr fun t ht => by rw [hends t ht]).symm

/-- The number of its line and the column of its place locate a token. -/
theorem locate_eq {before : List Token} {after : List (Except ScanError Token)}
    (h : (Scan.ofString source).items = before.map .ok ++ .ok head :: after) :
    locate source.toList (1 + before.countP (·.kind = .lineEnd)) head =
      Location.ofPosition source.toList head.position := by
  rw [← Scan.line_of_items h]
  rfl

/-- The first token of a line, blanks apart, is located where it stands. -/
theorem exists_place_of_heads (h : Token.lines (Scan.ofString source).tokens = xs ++ ts :: ys)
    (hheads : head.Heads rest ts) :
    ∃ before after,
      (Scan.ofString source).items = before.map .ok ++ .ok head :: (rest.map .ok ++ after) ∧
      Token.LeadsLine before ∧ .ok head ∈ (Scan.ofString source).items ∧
      locate source.toList (1 + xs.length) head = Location.ofPosition source.toList head.position ∧
      (Location.ofPosition source.toList head.position).line =
        1 + before.countP (·.kind = .lineEnd) ∧
      ∃ rest, RestAt source head.position (head.lexeme.toList ++ rest) := by
  obtain ⟨before, after, hitems, hleads, hcount⟩ := exists_items_of_heads h hheads
  have hmem : .ok head ∈ (Scan.ofString source).items := by
    rw [hitems]
    simp
  have hkind : head.kind ≠ .inputEnd := by
    intro hend
    have hinLine := inLine_of_lines h head hheads.mem
    rw [Token.endsLine, hend] at hinLine
    cases hinLine
  have hlocate := locate_eq hitems
  rw [hcount] at hlocate
  exact ⟨before, after, hitems, hleads, hmem, hlocate, Scan.line_of_items hitems,
    Scan.restAt_of_mem hmem hkind⟩

end Script

end Invocation

/-- The first defect of the lines is the error; a fault shows if they have none. -/
theorem parse_eq_error_iff {source : String} {e : ParseError} :
    parse source = .error e ↔
      Invocation.ofLines source.toList 1 (Token.lines (Scan.ofString source).tokens) = .error e ∨
        (∃ found,
          Invocation.ofLines source.toList 1 (Token.lines (Scan.ofString source).tokens) =
            .ok found) ∧
        ∃ fault, (Scan.ofString source).error? = some fault ∧ e = .scan fault := by
  unfold parse Invocation.ofChars Scan.ofString
  dsimp only
  cases Invocation.ofLines source.toList 1 (Token.lines (Scan.ofChars source.toList).tokens) with
  | error e' => exact ⟨.inl, fun h => h.resolve_right nofun⟩
  | ok found =>
    cases (Scan.ofChars source.toList).error? with
    | none => exact ⟨nofun, nofun⟩
    | some fault =>
      constructor
      · intro h
        exact .inr ⟨⟨found, rfl⟩, fault, rfl, (Except.error.inj h).symm⟩
      · rintro (h | ⟨-, _, hfault, rfl⟩)
        · nomatch h
        · rw [Option.some.inj hfault]
          rfl

/-! ## Both ways of locating agree -/

/-- An invocation stands at its position, which is in its line. -/
theorem Invocation.stands_of_parse {source : String} {invs : List Invocation}
    (h : parse source = .ok invs) : ∀ inv ∈ invs,
      inv.line = (Location.ofPosition source.toList inv.position).line ∧
        ∃ rest, RestAt source inv.position (inv.name.toList ++ rest) := by
  intro inv hinv
  obtain ⟨xs, ts, ys, hlines, hts⟩ := exists_line_of_mem (parse_eq_ok_iff.1 h).1 hinv
  obtain ⟨head, rest, hheads, hword, -, rfl⟩ := ofLine_eq_some_iff.1 hts
  obtain ⟨before, after, -, -, hmem, hlocate, -, hstands⟩ := exists_place_of_heads hlines hheads
  refine ⟨congrArg Location.line hlocate, ?_⟩
  rw [Scan.lexeme_of_word hmem hword] at hstands
  exact hstands

/-- What a fault reports is at the front of the text that has it. -/
theorem Scan.FaultAt.exists_reported {e : ScanError} {rest : List Char}
    (h : FaultAt e.fault rest) : ∃ tail, rest = (ParseError.scan e).reported ++ tail := by
  obtain ⟨fault, position, location⟩ := e
  cases h with
  | unterminated => exact ⟨_, rfl⟩
  | invalid => exact ⟨_, rfl⟩

/-- Where the item is that an error is about, there the error is located. -/
structure ParseError.LocatedAt (source : String) (e : ParseError) (before : List Token)
    (item : Except ScanError Token) : Prop where
  location_eq : e.location = Location.ofPosition source.toList (Scan.position item)
  line_eq : e.location.line = 1 + before.countP (·.kind = .lineEnd)
  reported : ∃ rest, RestAt source (Scan.position item) (e.reported ++ rest)

theorem Scan.locatedAt_of_error {source : String} {e : ScanError}
    (h : (Scan.ofString source).error? = some e) :
    (Scan.ofString source).items = (Scan.ofString source).tokens.map .ok ++ [.error e] ∧
      (ParseError.scan e).LocatedAt source (Scan.ofString source).tokens (.error e) := by
  have hitems : (Scan.ofString source).items =
      (Scan.ofString source).tokens.map .ok ++ [.error e] := by
    unfold Scan.items
    rw [h]
    rfl
  obtain ⟨hlocation, rest, hrest, hfault⟩ := Scan.exists_faultAt h
  obtain ⟨tail, rfl⟩ := hfault.exists_reported
  refine ⟨hitems, hlocation, ?_, tail, hrest⟩
  rw [← Scan.line_of_items hitems]
  exact congrArg Location.line hlocation

theorem Invocation.locatedAt_of_error {source : String} {e : ParseError}
    (h : ofLines source.toList 1 (Token.lines (Scan.ofString source).tokens) = .error e) :
    ∃ before item after, (Scan.ofString source).items = before.map .ok ++ item :: after ∧
      e.IsAbout before item after ∧ e.LocatedAt source before item := by
  obtain ⟨xs, ts, ys, -, hlines, -, hts⟩ := ofLines_eq_error_iff.1 h
  have hinLine := inLine_of_lines hlines
  cases ofLine_eq_error_iff.1 hts with
  | expectedName hheads hword hcomment =>
    obtain ⟨before, after, hitems, hleads, -, hlocate, hline, hstands⟩ :=
      exists_place_of_heads hlines hheads
    rw [hlocate]
    exact ⟨before, _, _, hitems, .expectedName hleads hword hcomment, rfl, hline, hstands⟩
  | @malformedName t u rest hheads hword hu =>
    obtain ⟨before, after, hitems, hleads, hmem, hlocate, hline, hstands⟩ :=
      exists_place_of_heads hlines hheads
    rw [hlocate]
    refine ⟨before, _, _, hitems, .malformedName hleads hword hu ?_, rfl, hline, ?_⟩
    · exact hinLine u (hheads.mem_of_mem List.mem_cons_self)
    · rw [Scan.lexeme_of_word hmem hword] at hstands
      exact hstands

/-- In every script, the invocations stand where their positions say, in the lines that their line
numbers say, each further down and further on than the one before. An error of any kind is about an
item that a reader meets: it gives the location of the item's byte position, the line of which is
one more than the number of line ends before the item, and the script goes on there with what the
error reports. -/
theorem parse_locations (source : String) :
    (∀ invs, parse source = .ok invs →
      (invs.Pairwise fun a b => a.line < b.line ∧ a.position < b.position) ∧
        ∀ inv ∈ invs, inv.line = (Location.ofPosition source.toList inv.position).line ∧
          ∃ rest, RestAt source inv.position (inv.name.toList ++ rest)) ∧
    ∀ e, parse source = .error e →
      ∃ before item after,
        (TokenCursor.start source).rest.1 = before.map .ok ++ item :: after ∧
        e.IsAbout before item after ∧ e.LocatedAt source before item := by
  rw [TokenCursor.rest_start]
  constructor
  · intro invs h
    have hstands := Invocation.stands_of_parse h
    refine ⟨?_, hstands⟩
    refine (Invocation.pairwise_line (parse_eq_ok_iff.1 h).1).imp_of_mem ?_
    intro a b ha hb hlt
    refine ⟨hlt, ?_⟩
    -- A position that does not lie further on is not in a line further down.
    by_contra hle
    have hback := Location.line_walk_mono (Nat.le_of_not_lt hle) Location.start false source.toList
    rw [(hstands a ha).1, (hstands b hb).1] at hlt
    unfold Location.ofPosition at hlt
    omega
  · intro e h
    rcases parse_eq_error_iff.1 h with hlines | ⟨-, fault, hfault, rfl⟩
    · exact Invocation.locatedAt_of_error hlines
    · obtain ⟨hitems, hlocated⟩ := Scan.locatedAt_of_error hfault
      exact ⟨_, .error fault, [], hitems, .fault, hlocated⟩

/-- Lines may end in any way, and `é` takes two bytes but one column. -/
theorem parse_locations_mixed :
    (let source := "# é\r\nEcho \"é\" é\r\rPass"
      ∃ echo pass, parse source = .ok [echo, pass] ∧ echo.line = 2 ∧ pass.line = 4 ∧
        echo.position < pass.position ∧
        (Location.ofPosition source.toList pass.position).line = 4 ∧
        ∃ rest, RestAt source pass.position ("Pass".toList ++ rest)) ∧
    (let source := "# é\r\nEcho \"é\" é\r\r  $x"
      ∃ before item after,
        (TokenCursor.start source).rest.1 = before.map .ok ++ item :: after ∧
        (ParseError.expectedName "$x" .variable ⟨4, 3⟩).IsAbout before item after ∧
        (ParseError.expectedName "$x" .variable ⟨4, 3⟩).LocatedAt source before item) := by
  constructor
  · intro source
    have hparse : parse source =
        .ok [⟨"Echo", [⟨[.literal "é"]⟩, ⟨[.literal "é"]⟩], 2, 6⟩, ⟨"Pass", [], 4, 20⟩] := by
      cbv
    obtain ⟨hpairs, hstands⟩ := (parse_locations source).1 _ hparse
    obtain ⟨hbelow, -⟩ := List.pairwise_cons.1 hpairs
    obtain ⟨hline, hrest⟩ := hstands _ (List.mem_cons_of_mem _ List.mem_cons_self)
    exact ⟨_, _, hparse, rfl, rfl, (hbelow _ List.mem_cons_self).2, hline.symm, hrest⟩
  · intro source
    have hparse : parse source = .error (.expectedName "$x" .variable ⟨4, 3⟩) := by cbv
    exact (parse_locations source).2 _ hparse

end Runbook
