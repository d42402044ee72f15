import Runbook.Invocation.Reader
import Runbook.Proofs.Invocation.Written
import Runbook.Proofs.Token.Cursor

/-!
# Reading token by token is reading line by line

A reader that has some tokens of a line in hand reads what it still meets as `Invocation.ofLines`
reads the lines of both together (`foldlM_take`), so it says what `parse` says and stops at the same
error (`read_eq_parse`). In the same way a reader of arguments that has some tokens of an argument
in hand (`ArgumentReader.holding`) comes to the arguments of the groups of all tokens
(`arguments_foldl`).
-/

namespace Runbook

/-! ## Arguments -/

namespace Part

theorem cons_nil (p : Part) : p.cons [] = [p] := by
  cases p <;> rfl

/-- Parts are joined at the front only. -/
theorem cons_append (p : Part) {row : List Part} (h : row ≠ []) (rest : List Part) :
    p.cons (row ++ rest) = p.cons row ++ rest := by
  obtain ⟨q, row, rfl⟩ := List.exists_cons_of_ne_nil h
  cases p <;> cases q <;> rfl

end Part

namespace Argument

theorem push_nil (p : Part) : push ⟨[]⟩ p = ⟨[p]⟩ := by
  cases p <;> rfl

/-- Parts are joined at the end only. -/
theorem push_append (parts : List Part) {row : List Part} (h : row ≠ []) (p : Part) :
    push ⟨parts ++ row⟩ p = ⟨parts ++ (push ⟨row⟩ p).parts⟩ := by
  obtain ⟨init, q, rfl⟩ : ∃ init q, row = init ++ [q] :=
    ⟨_, _, (List.dropLast_append_getLast h).symm⟩
  rw [← List.append_assoc]
  cases p <;> cases q <;> simp [push]

/-- It does not matter which is joined first, a part in front or one at the end. -/
theorem push_cons (p q : Part) (row : List Part) :
    push ⟨p.cons row⟩ q = ⟨p.cons (push ⟨row⟩ q).parts⟩ := by
  match row with
  | [] =>
    rw [push_nil, Part.cons_nil]
    cases p <;> cases q <;> rfl
  | [r] =>
    -- The two meet where nothing but a literal stands between them.
    cases p <;> cases r <;> cases q <;> simp [push, Part.cons, String.append_assoc]
  | r :: s :: row =>
    have hrow : s :: row ≠ [] := List.cons_ne_nil s row
    have hpush := push_append [r] hrow q
    rw [List.singleton_append] at hpush
    rw [hpush, ← List.singleton_append, Part.cons_append p (List.cons_ne_nil r []),
      push_append _ hrow, Part.cons_append p (List.cons_ne_nil r [])]

/-- One more token at the end of an argument pushes its part. -/
theorem ofTokens_concat (ts : List Token) (t : Token) :
    ofTokens (ts ++ [t]) = (ofTokens ts).push (Part.ofToken t) := by
  unfold ofTokens
  induction ts with
  | nil => exact (congrArg Argument.mk (Part.cons_nil _)).trans (push_nil _).symm
  | cons u ts ih =>
    have hparts := congrArg Argument.parts ih
    dsimp only at hparts
    rw [List.cons_append, List.foldr_cons, List.foldr_cons, push_cons, hparts]

end Argument

namespace Token

variable {g : List Token}

theorem groups_of_ne_blank (hne : g ≠ []) (hg : ∀ t ∈ g, t.kind ≠ .blank) : groups g = [g] := by
  have hgroup := @groups_append g [] hne hg nofun
  rwa [List.append_nil] at hgroup

/-- A blank ends the group before it. -/
theorem groups_append_blank (hg : ∀ t ∈ g, t.kind ≠ .blank) {t : Token} (ht : t.kind = .blank)
    (ts : List Token) : groups (g ++ t :: ts) = groups g ++ groups ts := by
  have hblank : groups (t :: ts) = groups ts := if_pos ht
  by_cases hne : g = []
  · rw [hne]
    exact hblank
  · rw [groups_append hne hg (by simp [ht]), hblank, groups_of_ne_blank hne hg]
    rfl

end Token

namespace ArgumentReader

/-- A reader with some tokens of an argument in hand. -/
def holding (closed : List Argument) (g : List Token) : ArgumentReader :=
  ⟨closed, if g = [] then none else some (.ofTokens g)⟩

variable {closed : List Argument} {g : List Token} {t : Token}

/-- Tokens in hand are one argument, and none is no argument. -/
theorem arguments_holding (hg : ∀ t ∈ g, t.kind ≠ .blank) :
    (holding closed g).arguments = closed ++ (Token.groups g).map Argument.ofTokens := by
  unfold holding arguments
  by_cases hne : g = []
  · rw [if_pos hne, hne]
    rfl
  · rw [if_neg hne, Token.groups_of_ne_blank hne hg]
    rfl

theorem take_of_blank (ht : t.kind = .blank) (r : ArgumentReader) :
    r.take t = holding r.arguments [] :=
  if_pos ht

theorem take_of_ne_blank (ht : t.kind ≠ .blank) :
    (holding closed g).take t = holding closed (g ++ [t]) := by
  have hopen : (holding closed g).current.getD ⟨[]⟩ = .ofTokens g := by
    unfold holding
    split
    · rename_i hnil
      rw [hnil]
      rfl
    · rfl
  have hheld : holding closed (g ++ [t]) = ⟨closed, some (.ofTokens (g ++ [t]))⟩ := by
    simp [holding]
  rw [take, if_neg ht, hopen, ← Argument.ofTokens_concat, hheld]
  rfl

/-- What a reader comes to: the arguments of the groups of all tokens, those in hand included. -/
theorem arguments_foldl (ts : List Token) (hg : ∀ t ∈ g, t.kind ≠ .blank) :
    (ts.foldl take (holding closed g)).arguments =
      closed ++ (Token.groups (g ++ ts)).map Argument.ofTokens := by
  induction ts generalizing closed g with
  | nil => rw [List.append_nil, List.foldl_nil, arguments_holding hg]
  | cons t ts ih =>
    rw [List.foldl_cons]
    by_cases ht : t.kind = .blank
    · rw [take_of_blank ht, ih (List.forall_mem_nil _), arguments_holding hg,
        Token.groups_append_blank hg ht, List.map_append, List.append_assoc, List.nil_append]
    · have hgt : ∀ u ∈ g ++ [t], u.kind ≠ .blank := by
        simpa [or_imp, forall_and, ht] using hg
      rw [take_of_ne_blank ht, ih hgt, List.append_assoc, List.singleton_append]

/-- Going through the tokens behind a name gives the arguments of their groups. -/
theorem read_eq (ts : List Token) : read ts = (Token.groups ts).map Argument.ofTokens :=
  @arguments_foldl [] [] ts (List.forall_mem_nil _)

end ArgumentReader

/-! ## Lines -/

namespace Reader

variable {source : List Char} {r : Reader} {t : Token}

theorem take_of_endsLine (h : t.endsLine) :
    r.take source (.ok t) = do
      let found ← Invocation.ofLine source r.line r.pending
      return ⟨r.line + 1, [], r.invocations ++ found.toList⟩ :=
  if_pos h

theorem take_of_inLine (h : t.endsLine = false) :
    r.take source (.ok t) = .ok { r with pending := r.pending ++ [t] } :=
  if_neg (by simp [h])

/-- What a reader comes to by going through tokens: it has read the lines of all tokens, those in
hand included, and has what stands behind the last line. -/
theorem foldlM_take (ts : List Token) (hr : ∀ t ∈ r.pending, t.endsLine = false) :
    ∃ line pending, (ts.map Except.ok).foldlM (take source) r = do
      let found ← Invocation.ofLines source r.line (Token.lines (r.pending ++ ts))
      return ⟨line, pending, r.invocations ++ found⟩ := by
  induction ts generalizing r with
  | nil =>
    refine ⟨r.line, r.pending, ?_⟩
    rw [List.append_nil, Token.lines_of_inLine hr, Invocation.ofLines]
    show Except.ok r = Except.ok ⟨r.line, r.pending, r.invocations ++ []⟩
    rw [List.append_nil]
  | cons t ts ih =>
    rw [List.map_cons, List.foldlM_cons]
    cases ht : t.endsLine with
    | true =>
      rw [take_of_endsLine ht, Token.lines_append ht, Token.lines_concat_of_inLine ht hr,
        List.singleton_append, Invocation.ofLines]
      cases Invocation.ofLine source r.line r.pending with
      | error e => exact ⟨0, [], rfl⟩
      | ok found =>
        obtain ⟨line, pending, hrest⟩ :=
          @ih ⟨r.line + 1, [], r.invocations ++ found.toList⟩ (List.forall_mem_nil _)
        refine ⟨line, pending, hrest.trans ?_⟩
        rw [List.nil_append]
        cases Invocation.ofLines source (r.line + 1) (Token.lines ts) with
        | error e => rfl
        | ok others => simp [bind, Except.bind, pure, Except.pure]
    | false =>
      have hpending : ∀ u ∈ r.pending ++ [t], u.endsLine = false := by
        simpa [or_imp, forall_and, ht] using hr
      obtain ⟨line, pending, hrest⟩ := @ih { r with pending := r.pending ++ [t] } hpending
      refine ⟨line, pending, ?_⟩
      rw [List.append_cons r.pending t ts, take_of_inLine ht]
      exact hrest

/-- A reader says what the lines of a script say, or stops at the same first error. -/
theorem read_eq_parse (source : String) : read source = parse source := by
  obtain ⟨line, pending, htokens⟩ :=
    @foldlM_take source.toList start (Scan.ofString source).tokens (List.forall_mem_nil _)
  unfold read parse Invocation.ofChars
  rw [TokenCursor.rest_start, Scan.items, List.foldlM_append, htokens]
  unfold Scan.ofString start
  dsimp only
  rw [List.nil_append]
  cases Invocation.ofLines source.toList 1 (Token.lines (Scan.ofChars source.toList).tokens) with
  | error e => rfl
  | ok found => cases (Scan.ofChars source.toList).error? <;> rfl

end Reader

end Runbook
