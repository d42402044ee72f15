import Runbook.Proofs.Token.Cursor

/-!
# Tokens are the longest spellings

Each token that a cursor yields before the end of the input or a fault is a spelling of its kind
that lies in the script where the token says, and no spelling of any kind that starts there is
longer (`longest_match`). A lexeme is measured with all the text from its place on in view, so this
is `length_le_of_measure` once the cursor's items are known to be the lexemes of the script.
-/

namespace Runbook

namespace TokenCursor

open Lexeme Token Text

/-- A token lies in the script at its position, it is a spelling of its kind for its text, and every
spelling of any kind at that position is at most as long. -/
theorem longest_match {source : String} {n : Nat} {t : Token}
    (h : ((start source).skip n).next.1 = some (.ok t)) (hkind : t.kind ≠ .inputEnd) :
    Spells t.kind t.lexeme.toList t.text.toList ∧
      ∃ rest, RestAt source t.position (t.lexeme.toList ++ rest) ∧
        ∀ kind w text, Spells kind w text → w <+: t.lexeme.toList ++ rest →
          w.length ≤ t.lexeme.toList.length := by
  rw [next_skip] at h
  obtain ⟨xs, l, ys, hsplit, rfl⟩ := Scan.exists_lexeme_of_mem (List.mem_of_getElem? h) hkind
  obtain ⟨c, cs, m, hsource, hm, hl⟩ := measure_of_split hsplit
  simp only [ofLexeme, String.toList_ofList]
  have hmem : l ∈ (split source.toList).1 := by
    rw [hsplit]
    exact List.mem_append_right xs List.mem_cons_self
  refine ⟨spells_of_mem_split hmem, cs.drop m, ?_, ?_⟩
  · refine ⟨joined xs, ?_, rfl⟩
    rw [hl, List.cons_append, List.take_append_drop]
    exact hsource
  · rintro kind w text hw ⟨tail, htail⟩
    rw [hl, List.cons_append, List.take_append_drop] at htail
    have hmeasure := length_le_of_measure hm hw htail
    have hlength := congrArg List.length htail
    rw [List.length_append, List.length_cons] at hlength
    rw [hl, List.length_cons, List.length_take]
    omega

/-- The first token of `1.5.2` is the number `1.5`, although `1` is a number, too. -/
theorem longest_match_number :
    ((start "1.5.2").skip 0).next.1 = some (.ok ⟨.number, "1.5", "1.5", 0⟩) ∧
      Spells .number ['1', '.', '5'] ['1', '.', '5'] ∧
      ∃ rest, RestAt "1.5.2" 0 (['1', '.', '5'] ++ rest) ∧
        ∀ kind w text, Spells kind w text → w <+: ['1', '.', '5'] ++ rest → w.length ≤ 3 := by
  have hitem : ((start "1.5.2").skip 0).next.1 = some (.ok ⟨.number, "1.5", "1.5", 0⟩) := by
    have hmeasure : Lexeme.measure '1' ['.', '5', '.', '2'] = .ok (.number, 2) := rfl
    rw [next_skip, Scan.items_ofString, show "1.5.2".toList = ['1', '.', '5', '.', '2'] from rfl,
      Scan.itemsFrom_of_ok hmeasure]
    rfl
  exact ⟨hitem, longest_match hitem nofun⟩

end TokenCursor

end Runbook
