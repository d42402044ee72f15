import Runbook.Proofs.Invocation.Locations
import Runbook.Proofs.Invocation.Reader

/-!
# Which scripts are read, and which defect is reported

Cutting a script at its line ends gives rows of items: tokens, and a fault behind the last of them
if scanning meets one. A row without a fault is readable if its first token, blanks apart, starts a
comment or is a name that stands alone (`Token.Readable`). `ParseError.Marks` says what is reported
of a row that is not. A script is read if all of its rows are readable, and each row with a name is
one invocation; otherwise the first row that is not decides what is reported, and those below it do
not count (`parse_by_rows`).
-/

namespace Runbook

/-! ## Rows of tokens -/

namespace Token

/-- The first token, blanks apart, starts a comment, or it is a word with a blank or nothing right
behind it. -/
def Readable (ts : List Token) : Prop :=
  ∀ t rest, Heads t rest ts →
    (t.kind = .symbol ∧ t.text = "#") ∨ (t.kind = .word ∧ ∀ u ∈ rest.head?, u.kind = .blank)

/-- The first token, blanks apart, if it is a word. -/
def name? (ts : List Token) : Option Token :=
  (ts.find? (·.kind ≠ .blank)).filter (·.kind = .word)

variable {t : Token} {rest ts : List Token}

theorem readable_of_blank (h : ∀ t ∈ ts, t.kind = .blank) : Readable ts :=
  fun t _ hheads => absurd (h t hheads.mem) hheads.1

theorem name?_of_blank (h : ∀ t ∈ ts, t.kind = .blank) : name? ts = none := by
  have hnone : ts.find? (·.kind ≠ .blank) = none := by
    simpa [List.find?_eq_none] using h
  unfold name?
  rw [hnone]
  rfl

theorem name?_of_heads (h : t.Heads rest ts) :
    name? ts = if t.kind = .word then some t else none := by
  have hfind : ts.find? (·.kind ≠ .blank) = some t := by
    obtain ⟨ht, blanks, rfl, hblanks⟩ := h
    have hnone : blanks.find? (·.kind ≠ .blank) = none := by
      simpa [List.find?_eq_none] using hblanks
    rw [List.find?_append, hnone, Option.none_or, List.find?_cons_of_pos (by simpa using ht)]
  unfold name?
  rw [hfind, Option.filter_some]
  simp

end Token

/-! ## Rows of items -/

namespace Scan

/-- A fault ends no line; the row that it is in has no end. -/
def endsLine : Except ScanError Token → Bool
  | .ok t => t.endsLine
  | .error _ => false

/-- Cutting at the line ends gives the lines and what stands behind the last of them. -/
theorem exists_splitOnP_endsLine (ts : List Token) (error? : Option ScanError) :
    ∃ last, ts.splitOnP (·.endsLine) = Token.lines ts ++ [last] ∧
      (ts.map Except.ok ++ error?.toList.map Except.error).splitOnP endsLine =
        (Token.lines ts).map (List.map Except.ok) ++
          [last.map Except.ok ++ error?.toList.map Except.error] := by
  induction ts with
  | nil =>
    refine ⟨[], List.splitOnP_nil, List.splitOnP_eq_singleton ?_⟩
    intro i hi
    obtain ⟨e, -, rfl⟩ := List.mem_map.1 hi
    rfl
  | cons t ts ih =>
    obtain ⟨last, htokens, hitems⟩ := ih
    rw [List.map_cons, List.cons_append, List.splitOnP_cons_eq_if_modifyHead,
      List.splitOnP_cons_eq_if_modifyHead, endsLine, htokens, hitems, Token.lines]
    by_cases ht : t.endsLine
    · rw [if_pos ht, if_pos ht, if_pos ht]
      exact ⟨last, rfl, rfl⟩
    · rw [if_neg ht, if_neg ht, if_neg ht]
      cases Token.lines ts with
      | nil => exact ⟨t :: last, rfl, rfl⟩
      | cons l ls => exact ⟨last, rfl, rfl⟩

end Scan

/-- What is reported of a row of items in the line of the given number: the fault if there is one,
and otherwise what the first token, blanks apart, does wrong. -/
inductive ParseError.Marks (source : List Char) (line : Nat) :
    List (Except ScanError Token) → ParseError → Prop where
  | fault {row : List (Except ScanError Token)} {e : ScanError} :
      .error e ∈ row → e.location.line = line → Marks source line row (.scan e)
  | defect {ts : List Token} {e : ParseError} :
      Invocation.Defect source line ts e → Marks source line (ts.map .ok) e

/-! ## Reading rows of tokens -/

namespace Invocation

variable {source : List Char} {line : Nat} {ts : List Token} {tss : List (List Token)}

/-- Where an invocation stands, and its name. -/
def heading (inv : Invocation) : Nat × String × Nat := (inv.line, inv.name, inv.position)

theorem readable_iff : Token.Readable ts ↔ ∃ found, ofLine source line ts = .ok found := by
  constructor
  · intro h
    cases hline : ofLine source line ts with
    | ok found => exact ⟨found, rfl⟩
    | error e =>
      cases ofLine_eq_error_iff.1 hline with
      | expectedName hheads hword hcomment =>
        rcases h _ _ hheads with hhash | ⟨hname, -⟩
        · exact absurd hhash hcomment
        · exact absurd hname hword
      | malformedName hheads hword hu =>
        rcases h _ _ hheads with ⟨hsymbol, -⟩ | ⟨-, hnext⟩
        · rw [hword] at hsymbol
          nomatch hsymbol
        · exact absurd (hnext _ rfl) hu
  · rintro ⟨found, hline⟩ t rest hheads
    rw [ofLine_of_heads hheads] at hline
    split at hline
    · rename_i hword
      split at hline
      · nomatch hline
      · rename_i hnext
        exact .inr ⟨hword, by simpa [Option.any_eq_false] using hnext⟩
    · split at hline
      · rename_i hcomment
        exact .inl hcomment
      · nomatch hline

/-- A row with a name is an invocation, and other rows are none. -/
theorem heading_ofLine {found : Option Invocation} (h : ofLine source line ts = .ok found) :
    found.map heading = (Token.name? ts).map fun t => (line, t.text, t.position) := by
  rcases Token.blank_or_heads ts with hblank | ⟨head, rest, hheads⟩
  · rw [ofLine_of_blank hblank] at h
    obtain rfl := Except.ok.inj h
    rw [Token.name?_of_blank hblank]
    rfl
  · rw [ofLine_of_heads hheads] at h
    rw [Token.name?_of_heads hheads]
    split at h
    · rename_i hword
      rw [if_pos hword]
      split at h
      · nomatch h
      · obtain rfl := Except.ok.inj h
        rfl
    · rename_i hword
      rw [if_neg hword]
      split at h
      · obtain rfl := Except.ok.inj h
        rfl
      · nomatch h

/-- Rows are read if all of them are readable. -/
theorem ofLines_readable_iff :
    (∃ found, ofLines source line tss = .ok found) ↔ ∀ ts ∈ tss, Token.Readable ts := by
  induction tss generalizing line with
  | nil => exact ⟨fun _ => List.forall_mem_nil _, fun _ => ⟨[], rfl⟩⟩
  | cons ts tss ih =>
    rw [List.forall_mem_cons, ← @ih (line + 1), @readable_iff source line]
    constructor
    · rintro ⟨found, h⟩
      obtain ⟨first, others, hfirst, hothers, -⟩ := ofLines_cons_of_ok h
      exact ⟨⟨first, hfirst⟩, others, hothers⟩
    · rintro ⟨⟨first, hfirst⟩, others, hothers⟩
      refine ⟨first.toList ++ others, ?_⟩
      rw [ofLines, hfirst, hothers]
      rfl

theorem headings_ofLines {invs : List Invocation} (h : ofLines source line tss = .ok invs) :
    invs.map heading = (tss.zipIdx line).filterMap fun (ts, line) =>
      (Token.name? ts).map fun t => (line, t.text, t.position) := by
  induction tss generalizing line invs with
  | nil =>
    obtain rfl := Except.ok.inj h
    rfl
  | cons ts tss ih =>
    obtain ⟨first, others, hfirst, hothers, rfl⟩ := ofLines_cons_of_ok h
    have hheading := heading_ofLine hfirst
    rw [List.map_append, ih hothers, List.zipIdx_cons, List.filterMap_cons]
    dsimp only
    rw [← hheading]
    cases first <;> rfl

end Invocation

/-! ## The rows of a script -/

namespace Scan

variable {source : String}

/-- Without a fault the last token ends its line: it is the end of the input. -/
theorem exists_tokens_eq_concat (h : (ofString source).error? = none) :
    ∃ init stop, (ofString source).tokens = init ++ [stop] ∧ stop.endsLine := by
  unfold ofString at h ⊢
  rcases hsplit : Lexeme.split source.toList with ⟨ls, fault⟩
  cases fault with
  | some fault =>
    rw [ofChars_of_some hsplit] at h
    nomatch h
  | none => exact ⟨_, _, congrArg Scan.tokens (ofChars_of_none hsplit), rfl⟩

/-- So nothing stands behind the last line. -/
theorem splitOnP_tokens (h : (ofString source).error? = none) :
    (ofString source).tokens.splitOnP (·.endsLine) =
      Token.lines (ofString source).tokens ++ [[]] := by
  obtain ⟨last, hrows, -⟩ := exists_splitOnP_endsLine (ofString source).tokens none
  obtain ⟨init, stop, htokens, hstop⟩ := exists_tokens_eq_concat h
  have hcut : (init ++ [stop]).splitOnP (·.endsLine) = init.splitOnP (·.endsLine) ++ [[]] := by
    rw [List.splitOnP_append_cons init [] hstop, List.splitOnP_nil]
  have hlast := hrows
  rw [htokens, hcut] at hlast
  rw [hrows, ← (List.append_inj' hlast rfl).2]

/-- A fault is in the line that follows the lines before it. -/
theorem line_of_error {e : ScanError} (h : (ofString source).error? = some e) :
    e.location.line = 1 + (Token.lines (ofString source).tokens).length := by
  obtain ⟨hitems, hlocated⟩ := locatedAt_of_error h
  have hends := endsLine_of_items hitems
  rw [Token.length_lines]
  refine hlocated.line_eq.trans (congrArg (1 + ·) ?_)
  exact List.countP_congr fun t ht => by rw [hends t ht]

end Scan

/-! ## The first row that is not readable -/

theorem map_ok_injective :
    Function.Injective (List.map (Except.ok : Token → Except ScanError Token)) :=
  List.map_injective_iff.2 fun _ _ => Except.ok.inj

theorem not_error_mem_map_ok {e : ScanError} {ts : List Token} :
    .error e ∉ ts.map (Except.ok : Token → Except ScanError Token) := by
  intro h
  obtain ⟨t, -, ht⟩ := List.mem_map.1 h
  nomatch ht

namespace ParseError

variable {source : List Char} {line : Nat} {ts : List Token} {e : ParseError}

/-- Without a fault a row is marked for what its tokens do wrong. -/
theorem marks_map_ok_iff :
    e.Marks source line (ts.map .ok) ↔ Invocation.Defect source line ts e := by
  constructor
  · generalize hrow : ts.map Except.ok = row
    rintro (⟨hmem, -⟩ | hdefect)
    · exact absurd (hrow ▸ hmem) not_error_mem_map_ok
    · rwa [map_ok_injective hrow]
  · exact .defect

/-- With a fault a row is marked for nothing else. -/
theorem Marks.eq_scan {fault : ScanError}
    (h : e.Marks source line (ts.map .ok ++ [.error fault])) : e = .scan fault := by
  generalize hrow : ts.map Except.ok ++ [Except.error fault] = row at h
  cases h with
  | @fault _ found hmem hline =>
    rw [← hrow, List.mem_append, List.mem_singleton] at hmem
    rcases hmem with hmem | hmem
    · exact absurd hmem not_error_mem_map_ok
    · rw [Except.error.inj hmem]
  | @defect us _ hdefect =>
    have hmem : .error fault ∈ us.map (Except.ok : Token → Except ScanError Token) := by
      rw [← hrow]
      exact List.mem_append_right _ List.mem_cons_self
    exact absurd hmem not_error_mem_map_ok

theorem not_marks_nil : ¬ e.Marks source line [] := by
  intro h
  have hdefect := (@marks_map_ok_iff source line [] e).1 h
  have hnone : Invocation.ofLine source line [] = .ok none := rfl
  rw [Invocation.ofLine_eq_error_iff.2 hdefect] at hnone
  nomatch hnone

end ParseError

/-- Rows without a fault are read if they are readable. -/
theorem Invocation.ofLines_rows_iff {source : List Char} {line : Nat} {tss : List (List Token)} :
    (∃ found, ofLines source line tss = .ok found) ↔
      ∀ row ∈ tss.map (List.map .ok), ∃ ts : List Token,
        row = ts.map (Except.ok : Token → Except ScanError Token) ∧ Token.Readable ts := by
  rw [ofLines_readable_iff, List.forall_mem_map]
  apply forall₂_congr
  intro ts hts
  constructor
  · exact fun h => ⟨ts, rfl, h⟩
  · rintro ⟨us, hus, h⟩
    rwa [map_ok_injective hus]

/-- The first row that is not readable decides what is reported. -/
theorem parse_eq_error_iff_rows {source : String} {e : ParseError} :
    parse source = .error e ↔
      ∃ front row back,
        (Scan.ofString source).items.splitOnP Scan.endsLine = front ++ row :: back ∧
        (∀ r ∈ front, ∃ ts, r = ts.map .ok ∧ Token.Readable ts) ∧
        e.Marks source.toList (1 + front.length) row := by
  obtain ⟨last, htokens, hrows⟩ :=
    Scan.exists_splitOnP_endsLine (Scan.ofString source).tokens (Scan.ofString source).error?
  unfold Scan.items
  rw [parse_eq_error_iff, Invocation.ofLines_rows_iff, Invocation.ofLines_eq_error_iff, hrows]
  constructor
  · rintro (⟨xs, ts, ys, found, htss, hxs, hts⟩ | ⟨hread, fault, hfault, rfl⟩)
    · rw [htss, List.map_append, List.map_cons, List.append_assoc, List.cons_append]
      refine ⟨_, _, _, rfl, Invocation.ofLines_rows_iff.1 ⟨found, hxs⟩, ?_⟩
      rw [List.length_map]
      apply ParseError.Marks.defect
      exact Invocation.ofLine_eq_error_iff.1 hts
    · refine ⟨_, _, [], rfl, hread, ?_⟩
      rw [List.length_map, hfault]
      apply ParseError.Marks.fault
      · exact List.mem_append_right _ List.mem_cons_self
      · exact Scan.line_of_error hfault
  · rintro ⟨front, row, back, hcut, hfront, hmarks⟩
    rcases List.eq_nil_or_concat back with rfl | ⟨back, z, rfl⟩
    · -- The row is the last one, in which alone a fault may stand.
      obtain ⟨rfl, hrow⟩ := List.append_inj' hcut rfl
      obtain rfl := List.singleton_inj.1 hrow
      cases herror : (Scan.ofString source).error? with
      | some fault =>
        rw [herror] at hmarks
        exact .inr ⟨hfront, fault, rfl, hmarks.eq_scan⟩
      | none =>
        rw [Scan.splitOnP_tokens herror] at htokens
        obtain rfl := List.singleton_inj.1 (List.append_inj' htokens rfl).2
        rw [herror] at hmarks
        exact absurd hmarks ParseError.not_marks_nil
    · rw [List.concat_eq_append, ← List.cons_append, ← List.append_assoc] at hcut
      obtain ⟨hlines, -⟩ := List.append_inj' hcut rfl
      obtain ⟨xs, zs, htss, rfl, hzs⟩ := List.map_eq_append_iff.1 hlines
      obtain ⟨ts, ys, rfl, rfl, -⟩ := List.map_eq_cons_iff.1 hzs
      rw [List.length_map] at hmarks
      obtain ⟨found, hfound⟩ := Invocation.ofLines_rows_iff.2 hfront
      refine .inl ⟨xs, ts, ys, found, htss, hfound, ?_⟩
      exact Invocation.ofLine_eq_error_iff.2 (ParseError.marks_map_ok_iff.1 hmarks)

/-! ## Scripts that are read -/

theorem tokenize_eq_ok_iff {source : String} {tokens : List Token} :
    tokenize source = .ok tokens ↔
      (Scan.ofString source).error? = none ∧ (Scan.ofString source).tokens = tokens := by
  rw [tokenize_eq, Scan.toExcept]
  cases (Scan.ofString source).error? with
  | none => exact ⟨fun h => ⟨rfl, Except.ok.inj h⟩, fun h => congrArg Except.ok h.2⟩
  | some e =>
    constructor
    · intro h
      cases h
    · rintro ⟨h, -⟩
      cases h

/-- Scripts are read that can be scanned and have readable rows only. -/
theorem exists_parse_eq_ok_iff {source : String} :
    (∃ invs, parse source = .ok invs) ↔
      ∃ tokens, tokenize source = .ok tokens ∧
        ∀ ts ∈ tokens.splitOnP (·.endsLine), Token.Readable ts := by
  constructor
  · rintro ⟨invs, h⟩
    obtain ⟨hlines, hnone⟩ := parse_eq_ok_iff.1 h
    refine ⟨_, tokenize_eq_ok_iff.2 ⟨hnone, rfl⟩, ?_⟩
    rw [Scan.splitOnP_tokens hnone, List.forall_mem_append, List.forall_mem_singleton]
    constructor
    · exact Invocation.ofLines_readable_iff.1 ⟨invs, hlines⟩
    · exact Token.readable_of_blank (List.forall_mem_nil _)
  · rintro ⟨tokens, htokens, hreadable⟩
    obtain ⟨hnone, rfl⟩ := tokenize_eq_ok_iff.1 htokens
    rw [Scan.splitOnP_tokens hnone, List.forall_mem_append] at hreadable
    obtain ⟨invs, hlines⟩ := Invocation.ofLines_readable_iff.2 hreadable.1
    exact ⟨invs, parse_eq_ok_iff.2 ⟨hlines, hnone⟩⟩

/-- Each row with a name is an invocation, and there are no others. -/
theorem headings_of_parse {source : String} {invs : List Invocation}
    (h : parse source = .ok invs) :
    ∃ tokens, tokenize source = .ok tokens ∧
      invs.map Invocation.heading =
        ((tokens.splitOnP (·.endsLine)).zipIdx 1).filterMap fun (ts, line) =>
          (Token.name? ts).map fun t => (line, t.text, t.position) := by
  obtain ⟨hlines, hnone⟩ := parse_eq_ok_iff.1 h
  refine ⟨_, tokenize_eq_ok_iff.2 ⟨hnone, rfl⟩, ?_⟩
  rw [Scan.splitOnP_tokens hnone, List.zipIdx_append, List.filterMap_append,
    Invocation.headings_ofLines hlines]
  exact (List.append_nil _).symm

/-- Every script is gone through row by row, token by token and up to the first error. It is read
if scanning meets no fault and each row is readable, which is to say that its first token, blanks
apart, is a `#` or a word with a blank or nothing behind it; each row with a name is one invocation
then, in the order of the rows. Otherwise the first row that is not readable decides what is
reported: the fault if it has one, and if not, that its first token can be no name, or that
something stands right behind the name. What is wrong with the rows below never shows. -/
theorem parse_by_rows (source : String) :
    Reader.read source = parse source ∧
    ((∃ invs, parse source = .ok invs) ↔
      ∃ tokens, tokenize source = .ok tokens ∧
        ∀ ts ∈ tokens.splitOnP (·.endsLine), Token.Readable ts) ∧
    (∀ invs, parse source = .ok invs →
      ∃ tokens, tokenize source = .ok tokens ∧
        invs.map Invocation.heading =
          ((tokens.splitOnP (·.endsLine)).zipIdx 1).filterMap fun (ts, line) =>
            (Token.name? ts).map fun t => (line, t.text, t.position)) ∧
    ∀ e, parse source = .error e ↔
      ∃ front row back,
        (TokenCursor.start source).rest.1.splitOnP Scan.endsLine = front ++ row :: back ∧
        (∀ r ∈ front, ∃ ts, r = ts.map .ok ∧ Token.Readable ts) ∧
        e.Marks source.toList (1 + front.length) row := by
  rw [TokenCursor.rest_start]
  refine ⟨Reader.read_eq_parse source, exists_parse_eq_ok_iff, ?_, ?_⟩
  · exact fun invs => headings_of_parse
  · exact fun e => parse_eq_error_iff_rows

/-- The second row decides what is reported, though the third can not name a function either and
the fourth leaves a string open. -/
theorem parse_by_rows_several_defects :
    (let source := "Echo a\n\n # $1\n\tPass"
      ∃ invs, parse source = .ok invs ∧
        invs.map Invocation.heading = [(1, "Echo", 0), (4, "Pass", 15)] ∧
        ∃ tokens, tokenize source = .ok tokens ∧
          ∀ ts ∈ tokens.splitOnP (·.endsLine), Token.Readable ts) ∧
    (let source := "Echo a\nEcho\"b\"\n1\nEcho \"open"
      let error := ParseError.malformedName "Echo" ⟨2, 1⟩
      parse source = .error error ∧
        ∃ front row back,
          (TokenCursor.start source).rest.1.splitOnP Scan.endsLine = front ++ row :: back ∧
          (∀ r ∈ front, ∃ ts, r = ts.map .ok ∧ Token.Readable ts) ∧
          error.Marks source.toList (1 + front.length) row) := by
  constructor
  · intro source
    have hparse : parse source =
        .ok [⟨"Echo", [⟨[.literal "a"]⟩], 1, 0⟩, ⟨"Pass", [], 4, 15⟩] := by cbv
    exact ⟨_, hparse, rfl, (parse_by_rows source).2.1.1 ⟨_, hparse⟩⟩
  · intro source error
    have hparse : parse source = .error error := by cbv
    exact ⟨hparse, ((parse_by_rows source).2.2.2 _).1 hparse⟩

end Runbook
