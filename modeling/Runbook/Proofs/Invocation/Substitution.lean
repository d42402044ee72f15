import Runbook.Proofs.Invocation.Defects
import Runbook.Store

/-!
# Arguments stand for runs of tokens

The arguments of an invocation are the runs of tokens behind its name that blanks cut out, and each
of them resolves to the texts of its tokens one behind the other (`Argument.resolve_ofTokens`),
although literals that stand side by side are kept as one part (`Argument.resolve_push`). So the
number of arguments and where each begins and ends show in the script alone, and the store decides
nothing but the texts of variables (`bindings_of_parse`).
-/

namespace Runbook

/-! ## Runs of tokens -/

/-- The groups of tokens are the runs that are left when the blanks are cut out. -/
theorem Token.groups_eq (ts : List Token) :
    groups ts = (ts.splitOnP (·.kind = .blank)).filter (· ≠ []) := by
  induction ts with
  | nil => simp [groups]
  | cons t ts ih =>
    rw [List.splitOnP_cons_eq_if_modifyHead]
    by_cases ht : t.kind = .blank
    · simp [groups, ht, ih]
    · cases ts with
      | nil => simp [groups, ht]
      | cons u us =>
        rw [groups, if_neg ht, ih, List.splitOnP_cons_eq_if_modifyHead]
        by_cases hu : u.kind = .blank
        · simp [ht, hu]
        · cases hsplit : us.splitOnP (·.kind = .blank) with
          | nil => exact absurd hsplit (List.splitOnP_ne_nil _ _)
          | cons l ls => simp [ht, hu]

/-- What a token stands for in an argument while the variables are as in the store: a variable for
its text, and for its name if it is not set, and any other token for its own text. -/
def Token.substituted (s : Store) (t : Token) : String :=
  match t.kind with
  | .variable =>
    match s.get? t.text with
    | some value => value.toText
    | none => t.text
  | _ => t.text

theorem Part.resolve_ofToken (s : Store) (t : Token) :
    (Part.ofToken t).resolve s.text? = t.substituted s := by
  unfold Part.ofToken Token.substituted
  cases t.kind with
  | «variable» =>
    dsimp only [Part.resolve, Store.text?]
    cases s.get? t.text <;> rfl
  | _ => rfl

/-! ## Texts of arguments -/

namespace Argument

variable (lookup : String → Option String)

theorem resolve_append (parts rest : List Part) :
    resolve lookup ⟨parts ++ rest⟩ = resolve lookup ⟨parts⟩ ++ resolve lookup ⟨rest⟩ := by
  unfold resolve
  rw [List.map_append, String.join_append]

/-- Joining literals at the front does not change the text of an argument. -/
theorem resolve_partCons (p : Part) (row : List Part) :
    resolve lookup ⟨p.cons row⟩ = resolve lookup ⟨p :: row⟩ := by
  unfold Part.cons
  split
  · rw [resolve_cons, resolve_cons, resolve_cons, ← String.append_assoc]
    rfl
  · rfl

/-- Nor does joining literals at the end. -/
theorem resolve_push (a : Argument) (p : Part) :
    (a.push p).resolve lookup = resolve lookup ⟨a.parts ++ [p]⟩ := by
  rcases a with ⟨parts⟩
  unfold push
  split
  · rename_i text last hlast
    obtain ⟨init, rfl⟩ := List.getLast?_eq_some_iff.1 hlast
    rw [List.dropLast_concat, List.append_assoc, resolve_append, resolve_append]
    exact congrArg _ (resolve_partCons lookup (.literal last) [.literal text])
  · rfl

/-- An argument resolves as the parts of its tokens do, one by one. -/
theorem resolve_ofTokens (ts : List Token) :
    (ofTokens ts).resolve lookup = resolve lookup ⟨ts.map Part.ofToken⟩ := by
  unfold ofTokens
  induction ts with
  | nil => rfl
  | cons t ts ih =>
    rw [List.foldr_cons, resolve_partCons, resolve_cons, ih, List.map_cons, resolve_cons]

end Argument

namespace Invocation

/-- Arguments of groups bind what the tokens of the groups stand for. -/
theorem bindings_of_groups {inv : Invocation} {gs : List (List Token)}
    (h : inv.arguments = gs.map Argument.ofTokens) (s : Store) :
    inv.bindings s.text? = gs.zipIdx.map fun (g, i) =>
      (argumentName i, String.join (g.map (Token.substituted s))) := by
  have htexts : inv.texts s.text? =
      gs.map fun g => String.join (g.map (Token.substituted s)) := by
    unfold texts
    rw [h, List.map_map]
    apply List.map_congr_left
    intro g hg
    rw [Function.comp_apply, Argument.resolve_ofTokens, Argument.resolve, List.map_map]
    exact congrArg String.join (List.map_congr_left fun t ht => Part.resolve_ofToken s t)
  unfold bindings
  rw [htexts, List.zipIdx_map, List.map_map]
  rfl

end Invocation

/-- Every invocation stands in the row of its line, where its name is the first token, blanks apart.
Its arguments are those that going through the tokens behind the name from left to right gives. They
are bound in order, under their numbers from 0: one for each run that blanks cut out of these
tokens, with the text that the tokens of the run stand for one behind the other, a variable for its
text in the store or else for its name. So their number does not depend on the store. Joining
literals that stand side by side never changes the text of an argument. -/
theorem bindings_of_parse (source : String) :
    (∀ invs, parse source = .ok invs →
      ∃ tokens, tokenize source = .ok tokens ∧
        ∀ inv ∈ invs, ∃ i ts name rest,
          inv.line = i + 1 ∧ (tokens.splitOnP (·.endsLine))[i]? = some ts ∧
          Token.Heads name rest ts ∧ name.kind = .word ∧
          inv.name = name.text ∧ inv.position = name.position ∧
          inv.arguments = ArgumentReader.read rest ∧
          let runs := (rest.splitOnP (·.kind = .blank)).filter (· ≠ [])
          inv.arguments.length = runs.length ∧
          ∀ s : Store, inv.bindings s.text? = runs.zipIdx.map fun (run, i) =>
            (argumentName i, String.join (run.map (Token.substituted s)))) ∧
    ∀ (a : Argument) (p : Part) (s : Store),
      (a.push p).resolve s.text? = Argument.resolve s.text? ⟨a.parts ++ [p]⟩ := by
  refine ⟨?_, fun a p s => a.resolve_push s.text? p⟩
  intro invs h
  obtain ⟨hlines, hnone⟩ := parse_eq_ok_iff.1 h
  refine ⟨_, tokenize_eq_ok_iff.2 ⟨hnone, rfl⟩, ?_⟩
  intro inv hinv
  obtain ⟨xs, ts, ys, htss, hts⟩ := Invocation.exists_line_of_mem hlines hinv
  obtain ⟨name, rest, hheads, hword, -, rfl⟩ := Invocation.ofLine_eq_some_iff.1 hts
  have hrow : (Scan.ofString source).tokens.splitOnP (·.endsLine) = xs ++ ts :: (ys ++ [[]]) := by
    rw [Scan.splitOnP_tokens hnone, htss, List.append_assoc, List.cons_append]
  refine ⟨xs.length, ts, name, rest, Nat.add_comm 1 _, ?_, hheads, hword, rfl, rfl,
    (ArgumentReader.read_eq rest).symm, ?_⟩
  · rw [hrow]
    simp
  · rw [← Token.groups_eq]
    exact ⟨List.length_map _, Invocation.bindings_of_groups rfl⟩

/-- An empty string is an argument, the blanks at the end are none, and a variable that is joined to
other text keeps its place among the three arguments whatever it is set to. -/
theorem bindings_of_parse_joined :
    let source := "Echo \"\" a$b\"c d\".txt -5 \t"
    ∃ inv, parse source = .ok [inv] ∧
      inv.bindings ((∅ : Store).set "b" (.int 7)).text? =
        [("Argument0", ""), ("Argument1", "a7c d.txt"), ("Argument2", "-5")] ∧
      ∃ runs : List (List Token), runs.length = 3 ∧
        ∀ s : Store, inv.bindings s.text? = runs.zipIdx.map fun (run, i) =>
          (argumentName i, String.join (run.map (Token.substituted s))) := by
  intro source
  have hparse : parse source = .ok [⟨"Echo",
      [⟨[.literal ""]⟩, ⟨[.literal "a", .variable "b", .literal "c d.txt"]⟩, ⟨[.literal "-5"]⟩],
      1, 0⟩] := by cbv
  obtain ⟨tokens, -, hinvs⟩ := (bindings_of_parse source).1 _ hparse
  obtain ⟨i, ts, name, rest, -, -, -, -, -, -, -, hlength, hbindings⟩ := hinvs _ List.mem_cons_self
  exact ⟨_, hparse, by decide, _, hlength.symm, hbindings⟩

end Runbook
