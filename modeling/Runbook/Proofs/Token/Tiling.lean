import Runbook.Proofs.Token.Cursor

/-!
# Tokens tile their script

The tokens of a script lie side by side from its front on (`Token.Tile`): without a fault over the
whole script, with one over all that stands before the fault. `tiling` says so of what a cursor
yields step by step, and that in every step the cursor cuts the script at boundaries only.
-/

namespace Runbook

namespace Token

open Lexeme Text

/-- The tokens lie side by side over the first `stop` bytes of the script: their lexemes are its
front, each stands where the ones before it end, and none is empty or the end of the input. -/
structure Tile (source : String) (stop : Nat) (tokens : List Token) : Prop where
  front : ∃ rest, source = String.join (tokens.map (·.lexeme)) ++ rest
  stop_eq : stop = (String.join (tokens.map (·.lexeme))).utf8ByteSize
  position_eq : ∀ before t after, tokens = before ++ t :: after →
    t.position = (String.join (before.map (·.lexeme))).utf8ByteSize
  lexeme_ne : ∀ t ∈ tokens, t.lexeme ≠ ""
  kind_ne : ∀ t ∈ tokens, t.kind ≠ .inputEnd

theorem join_place (position : Nat) (ls : List Lexeme) :
    String.join ((place position ls).map (·.lexeme)) = String.ofList (joined ls) := by
  induction ls generalizing position with
  | nil => rfl
  | cons l ls ih =>
    rw [place, List.map_cons, String.join_cons, ih, joined_cons, String.ofList_append]
    rfl

theorem position_of_place_eq {start : Nat} {ls : List Lexeme} {before after : List Token}
    {t : Token} (h : place start ls = before ++ t :: after) :
    t.position = start + (String.join (before.map (·.lexeme))).utf8ByteSize := by
  induction ls generalizing start before with
  | nil => simp [place] at h
  | cons l ls ih =>
    cases before with
    | nil =>
      obtain ⟨rfl, -⟩ := List.cons.inj h
      rfl
    | cons s before =>
      obtain ⟨hs, htail⟩ := List.cons.inj h
      have hlexeme : s.lexeme = String.ofList l.written := by rw [← hs]; rfl
      rw [ih htail, List.map_cons, String.join_cons, String.utf8ByteSize_append, hlexeme,
        utf8ByteSize_ofList, Nat.add_assoc]

theorem tile_place (source : String) :
    Tile source (byteLength (joined (split source.toList).1)) (place 0 (split source.toList).1) where
  front := by
    obtain ⟨rest, hsource, -⟩ := exists_rest source.toList
    refine ⟨String.ofList rest, ?_⟩
    rw [join_place, ← String.ofList_append, ← hsource, String.ofList_toList]
  stop_eq := by rw [join_place, utf8ByteSize_ofList]
  position_eq before t after h := by rw [position_of_place_eq h, Nat.zero_add]
  lexeme_ne t ht := by
    obtain ⟨xs, l, ys, hsplit, rfl⟩ := mem_place ht
    have hl : l ∈ (split source.toList).1 := by
      rw [hsplit]
      exact List.mem_append_right xs List.mem_cons_self
    intro hempty
    exact (spells_of_mem_split hl).ne_nil (String.ofList_eq_empty_iff.1 hempty)
  kind_ne t ht := by
    obtain ⟨xs, l, ys, hsplit, rfl⟩ := mem_place ht
    have hl : l ∈ (split source.toList).1 := by
      rw [hsplit]
      exact List.mem_append_right xs List.mem_cons_self
    exact (spells_of_mem_split hl).kind_ne_inputEnd

end Token

namespace TokenCursor

open Lexeme Token Text

/-- A cursor yields tokens that tile the front of the script, then one last item, then nothing. The
last item is the end of the input after the whole script, or the fault where it stands; `tokenize`
gives the same. No step cuts the script anywhere but at its boundaries. -/
theorem tiling (source : String) :
    ∃ tokens stop last,
      (∀ n, ((start source).skip n).next.1 = (tokens.map .ok ++ [last])[n]?) ∧
      Tile source stop tokens ∧
      ((last = .ok ⟨.inputEnd, "", "", stop⟩ ∧
          tokenize source = .ok (tokens ++ [⟨.inputEnd, "", "", stop⟩]) ∧
          stop = source.utf8ByteSize ∧ String.join (tokens.map (·.lexeme)) = source) ∨
        ∃ e, last = .error e ∧ tokenize source = .error e ∧ stop = e.position) ∧
      ∀ n, ((start source).skip n).advance.found?.isSome ∧
        ∀ cut ∈ ((start source).skip n).advance.cuts, IsBoundary source cut := by
  refine ⟨place 0 (split source.toList).1, byteLength (joined (split source.toList).1),
    Scan.last source.toList (byteLength (joined (split source.toList).1)) (split source.toList).2,
    ?_, tile_place source, ?_, ?_⟩
  · intro n
    rw [next_skip, Scan.items_ofString, Scan.itemsFrom, Nat.zero_add]
  · rw [tokenize_eq]
    unfold Scan.ofString Scan.ofChars Scan.toExcept
    dsimp only
    cases hfault : (split source.toList).2 with
    | none =>
      left
      have hjoined := joined_split hfault
      refine ⟨rfl, rfl, ?_, ?_⟩
      · rw [hjoined, byteLength_toList]
      · rw [join_place, hjoined, String.ofList_toList]
    | some fault => exact .inr ⟨_, rfl, rfl, rfl⟩
  · intro n
    obtain ⟨after, hfinds, -⟩ := ((awaits_start source).skip n).advance
    rw [hfinds.found]
    exact ⟨rfl, hfinds.cuts⟩

end TokenCursor

end Runbook
