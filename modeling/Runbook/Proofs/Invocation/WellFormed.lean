import Mathlib.Data.List.Chain
import Runbook.Proofs.Invocation.Lines

/-!
# Well-formed invocations

Whatever is read from a script is well formed: names are identifiers, an argument has parts, no two
literals stand side by side, and no literal holds a line end (`wellFormed_of_parse`). Names and
parts are the texts of tokens, so this rests on the grammar of tokens; that literals stand apart is
what `Part.cons` keeps (`RowWellFormed.cons`).
-/

namespace Runbook

/-! ## Well-formedness -/

namespace Part

/-- The part is text as it stands. -/
def isLiteral : Part → Bool
  | .literal _ => true
  | .variable _ => false

/-- A literal keeps to one line, and a variable is named by an identifier. -/
def WellFormed : Part → Prop
  | .literal text => Text.SingleLine text.toList
  | .variable name => Token.IsIdentifier name.toList

instance : (p : Part) → Decidable p.WellFormed
  | .literal text => inferInstanceAs (Decidable (Text.SingleLine text.toList))
  | .variable name => inferInstanceAs (Decidable (Token.IsIdentifier name.toList))

/-- The parts are well formed, and no two literals stand side by side. -/
structure RowWellFormed (row : List Part) : Prop where
  parts : ∀ p ∈ row, p.WellFormed
  apart : row.IsChain fun p q => ¬ (p.isLiteral ∧ q.isLiteral)

instance (row : List Part) : Decidable (RowWellFormed row) :=
  decidable_of_iff
    ((∀ p ∈ row, p.WellFormed) ∧ row.IsChain fun p q => ¬ (p.isLiteral ∧ q.isLiteral))
    ⟨fun ⟨parts, apart⟩ => ⟨parts, apart⟩, fun ⟨parts, apart⟩ => ⟨parts, apart⟩⟩

end Part

/-- An argument of one or more well-formed parts, no two literals side by side. -/
structure Argument.WellFormed (a : Argument) : Prop where
  nonempty : a.parts ≠ []
  row : Part.RowWellFormed a.parts

instance (a : Argument) : Decidable a.WellFormed :=
  decidable_of_iff (a.parts ≠ [] ∧ Part.RowWellFormed a.parts)
    ⟨fun ⟨nonempty, row⟩ => ⟨nonempty, row⟩, fun ⟨nonempty, row⟩ => ⟨nonempty, row⟩⟩

/-- The name is an identifier, and the arguments are well formed. -/
structure Invocation.WellFormed (inv : Invocation) : Prop where
  name : Token.IsIdentifier inv.name.toList
  arguments : ∀ a ∈ inv.arguments, a.WellFormed

instance (inv : Invocation) : Decidable inv.WellFormed :=
  decidable_of_iff (Token.IsIdentifier inv.name.toList ∧ ∀ a ∈ inv.arguments, a.WellFormed)
    ⟨fun ⟨name, arguments⟩ => ⟨name, arguments⟩, fun ⟨name, arguments⟩ => ⟨name, arguments⟩⟩

/-- The token is a spelling of its kind, and not one that ends a line. -/
structure Token.InLine (t : Token) : Prop where
  spells : Token.Spells t.kind t.lexeme.toList t.text.toList
  kind_ne_lineEnd : t.kind ≠ .lineEnd

/-! ## Parts of an argument -/

namespace Part

theorem wellFormed_ofToken {t : Token} (h : t.InLine) : (ofToken t).WellFormed := by
  unfold ofToken
  split
  · rename_i hvariable
    exact (hvariable ▸ h.spells).isIdentifier_of_variable
  · exact (h.spells.singleLine h.kind_ne_lineEnd).2

theorem exists_of_isLiteral {p : Part} (h : p.isLiteral) : ∃ text, p = .literal text := by
  cases p with
  | literal text => exact ⟨text, rfl⟩
  | _ => nomatch h

theorem cons_ne_nil (p : Part) (row : List Part) : p.cons row ≠ [] := by
  unfold cons
  split <;> exact List.cons_ne_nil _ _

/-- Putting a part in front keeps literals apart, as two side by side become one. -/
theorem RowWellFormed.cons {p : Part} {row : List Part} (hp : p.WellFormed)
    (h : RowWellFormed row) : RowWellFormed (p.cons row) := by
  obtain ⟨hparts, hapart⟩ := h
  unfold Part.cons
  split
  · rename_i a b row
    have hb : (literal b).WellFormed := hparts _ List.mem_cons_self
    have hab : (literal (a ++ b)).WellFormed := by
      show Text.SingleLine (a ++ b).toList
      rw [String.toList_append]
      exact Text.singleLine_append.2 ⟨hp, hb⟩
    refine ⟨List.forall_mem_cons.2 ⟨hab, fun q hq => hparts q (List.mem_cons_of_mem _ hq)⟩, ?_⟩
    cases row with
    | nil => exact .singleton _
    | cons q row =>
      rw [List.isChain_cons_cons] at hapart ⊢
      exact hapart
  · rename_i hmerge
    refine ⟨List.forall_mem_cons.2 ⟨hp, hparts⟩, ?_⟩
    cases row with
    | nil => exact .singleton _
    | cons q row =>
      refine List.isChain_cons_cons.2 ⟨?_, hapart⟩
      rintro ⟨hpl, hql⟩
      obtain ⟨a, rfl⟩ := exists_of_isLiteral hpl
      obtain ⟨b, rfl⟩ := exists_of_isLiteral hql
      exact hmerge a b row rfl rfl

end Part

/-! ## What is read -/

namespace Token

theorem mem_groups {ts g : List Token} (h : g ∈ groups ts) : g ≠ [] ∧ ∀ t ∈ g, t ∈ ts := by
  induction ts generalizing g with
  | nil => nomatch h
  | cons t ts ih =>
    have htail : g ∈ groups ts → g ≠ [] ∧ ∀ u ∈ g, u ∈ t :: ts :=
      fun hg => ⟨(ih hg).1, fun u hu => List.mem_cons_of_mem t ((ih hg).2 u hu)⟩
    have hsingle : g = [t] → g ≠ [] ∧ ∀ u ∈ g, u ∈ t :: ts := by
      rintro rfl
      exact ⟨List.cons_ne_nil t [], by simp⟩
    unfold groups at h
    split at h
    · exact htail h
    · split at h
      · exact hsingle (List.mem_singleton.1 h)
      · split at h
        · exact (List.mem_cons.1 h).elim hsingle htail
        · split at h
          · exact hsingle (List.mem_singleton.1 h)
          · rename_i hd gs hgroups
            rcases List.mem_cons.1 h with rfl | hg
            · have hhd := ih (hgroups ▸ List.mem_cons_self)
              refine ⟨List.cons_ne_nil t hd, List.forall_mem_cons.2 ⟨List.mem_cons_self, ?_⟩⟩
              exact fun v hv => List.mem_cons_of_mem t (hhd.2 v hv)
            · exact htail (hgroups ▸ List.mem_cons_of_mem hd hg)

end Token

/-- Every token before the end of the input is a spelling of its kind. -/
theorem Scan.spells_of_mem {a : List Char} {t : Token} (h : t ∈ (Scan.ofChars a).tokens)
    (hkind : t.kind ≠ .inputEnd) : Token.Spells t.kind t.lexeme.toList t.text.toList := by
  rcases Scan.mem_tokens h with h | rfl
  · obtain ⟨xs, l, ys, hls, rfl⟩ := Token.mem_place h
    simp only [Token.ofLexeme, String.toList_ofList]
    exact Lexeme.spells_of_mem_split (hls ▸ List.mem_append_right xs List.mem_cons_self)
  · exact absurd rfl hkind

theorem Token.inLine_of_mem_lines {a : List Char} {ts : List Token}
    (hts : ts ∈ Token.lines (Scan.ofChars a).tokens) : ∀ t ∈ ts, t.InLine := by
  intro t ht
  obtain ⟨hmem, hends⟩ := Token.mem_of_mem_lines hts ht
  unfold Token.endsLine Token.Kind.endsLine at hends
  simp only [Bool.or_eq_false_iff, beq_eq_false_iff_ne] at hends
  exact ⟨Scan.spells_of_mem hmem hends.2, hends.1⟩

theorem Argument.wellFormed_ofTokens {ts : List Token} (hne : ts ≠ []) (h : ∀ t ∈ ts, t.InLine) :
    (Argument.ofTokens ts).WellFormed := by
  constructor
  · obtain ⟨t, ts, rfl⟩ := List.exists_cons_of_ne_nil hne
    exact Part.cons_ne_nil _ _
  · unfold Argument.ofTokens
    clear hne
    induction ts with
    | nil => exact ⟨nofun, .nil⟩
    | cons t ts ih =>
      obtain ⟨ht, hts⟩ := List.forall_mem_cons.1 h
      exact .cons (Part.wellFormed_ofToken ht) (ih hts)

namespace Invocation

theorem wellFormed_of_ofLine {source : List Char} {line : Nat} {ts : List Token} {inv : Invocation}
    (hts : ∀ t ∈ ts, t.InLine) (h : ofLine source line ts = .ok (some inv)) : inv.WellFormed := by
  unfold ofLine at h
  split at h
  · nomatch h
  · rename_i head rest hline
    have hmem : ∀ t ∈ head :: rest, t.InLine :=
      fun t ht => hts t ((List.dropWhile_sublist _).mem (hline ▸ ht))
    obtain ⟨hhead, hrest⟩ := List.forall_mem_cons.1 hmem
    split at h
    · rename_i hword
      split at h
      · nomatch h
      · obtain rfl := Option.some.inj (Except.ok.inj h)
        refine ⟨(hword ▸ hhead.spells).isIdentifier_of_word, ?_⟩
        intro a ha
        obtain ⟨g, hg, rfl⟩ := List.mem_map.1 ha
        obtain ⟨hne, hsub⟩ := Token.mem_groups hg
        exact Argument.wellFormed_ofTokens hne fun t ht => hrest t (hsub t ht)
    · split at h <;> nomatch h

theorem ofLines_cons_of_ok {source : List Char} {line : Nat} {ts : List Token}
    {tss : List (List Token)} {invs : List Invocation}
    (h : ofLines source line (ts :: tss) = .ok invs) :
    ∃ first others, ofLine source line ts = .ok first ∧
      ofLines source (line + 1) tss = .ok others ∧ invs = first.toList ++ others := by
  rw [ofLines] at h
  cases hfirst : ofLine source line ts with
  | error e => simp [hfirst, bind, Except.bind] at h
  | ok first =>
    cases hothers : ofLines source (line + 1) tss with
    | error e => simp [hfirst, hothers, bind, Except.bind] at h
    | ok others =>
      rw [hfirst, hothers] at h
      exact ⟨first, others, rfl, rfl, (Except.ok.inj h).symm⟩

theorem wellFormed_of_ofLines {source : List Char} {line : Nat} {tss : List (List Token)}
    {invs : List Invocation} (htss : ∀ ts ∈ tss, ∀ t ∈ ts, t.InLine)
    (h : ofLines source line tss = .ok invs) : ∀ inv ∈ invs, inv.WellFormed := by
  induction tss generalizing line invs with
  | nil =>
    obtain rfl := Except.ok.inj h
    exact List.forall_mem_nil _
  | cons ts tss ih =>
    obtain ⟨hts, hothers⟩ := List.forall_mem_cons.1 htss
    obtain ⟨first, others, hfirst, hrest, rfl⟩ := ofLines_cons_of_ok h
    intro inv hinv
    rcases List.mem_append.1 hinv with hinv | hinv
    · obtain rfl := Option.mem_toList.1 hinv
      exact wellFormed_of_ofLine hts hfirst
    · exact ih hothers hrest inv hinv

end Invocation

/-- A script says what its lines say, unless scanning meets a fault. -/
theorem parse_eq_ok_iff {source : String} {invs : List Invocation} :
    parse source = .ok invs ↔
      Invocation.ofLines source.toList 1 (Token.lines (Scan.ofString source).tokens) = .ok invs ∧
        (Scan.ofString source).error? = none := by
  unfold parse Invocation.ofChars Scan.ofString
  dsimp only
  cases Invocation.ofLines source.toList 1 (Token.lines (Scan.ofChars source.toList).tokens) with
  | error e => exact ⟨nofun, nofun⟩
  | ok found =>
    cases (Scan.ofChars source.toList).error? with
    | none => exact ⟨fun h => ⟨h, rfl⟩, And.left⟩
    | some e => exact ⟨nofun, nofun⟩

/-- Scripts say nothing but well-formed invocations. -/
theorem wellFormed_of_parse {source : String} {invs : List Invocation}
    (h : parse source = .ok invs) : ∀ inv ∈ invs, inv.WellFormed :=
  Invocation.wellFormed_of_ofLines (fun _ => Token.inLine_of_mem_lines) (parse_eq_ok_iff.1 h).1

end Runbook
