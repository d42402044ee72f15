import Mathlib
import Runbook.Proofs.Token.Acceptance
import Runbook.Proofs.Token.LineBreak

/-!
# Where tokens stand

The location of a token is found by going over the characters before it. Its line can be told from
the tokens before it as well: it is one more than the number of line ends among them
(`line_of_items`). No other token holds a line end (`Spells.singleLine`), and a token that is a
carriage return has no line feed behind it, so the characters of a line end lead to the next line
just once.
-/

namespace Runbook

open Text

/-! ## Line ends among lexemes -/

namespace Lexeme

theorem isPrefix_of_split {cs : List Char} {xs ys : List Lexeme} (h : (split cs).1 = xs ++ ys) :
    joined xs <+: cs := by
  obtain ⟨rest, hcs, -⟩ := exists_rest_of_split h
  exact ⟨rest, hcs.symm⟩

/-- The first lexemes of a text have, over their characters, as many line ends as there are among
them. -/
theorem lineEnds_joined {cs : List Char} {xs ys : List Lexeme} (h : (split cs).1 = xs ++ ys) :
    lineEnds (joined xs) = xs.countP (·.kind = .lineEnd) := by
  induction xs generalizing cs with
  | nil => rfl
  | cons l xs ih =>
    obtain ⟨c, rest, n, rfl, hm, hl, hsplit⟩ := split_eq_cons h
    have hxs := congrArg Prod.fst hsplit
    rw [joined_cons, List.countP_cons, ← ih hxs]
    by_cases hk : l.kind = .lineEnd
    · rw [hk] at hm
      rw [hl, lineEnds_lineEnd hm (isPrefix_of_split hxs), if_pos (decide_eq_true hk)]
    · have hspells : Token.Spells l.kind l.written _ := hl ▸ spells_of_measure hm
      rw [(hspells.singleLine hk).1.lineEnds_append, if_neg (by simpa using hk), Nat.add_zero]

theorem line_ofPosition_joined {cs : List Char} {xs ys : List Lexeme}
    (h : (split cs).1 = xs ++ ys) :
    (Location.ofPosition cs (byteLength (joined xs))).line =
      1 + xs.countP (·.kind = .lineEnd) := by
  obtain ⟨rest, hcs, -⟩ := exists_rest_of_split h
  rw [hcs, Location.ofPosition_append (Nat.le_refl _), ← lineEnds_joined h]
  exact @Location.line_walk (joined xs) false nofun Location.start

end Lexeme

/-! ## Items and what stands before them -/

namespace Scan

open Lexeme Token

/-- The byte position at which a reader meets a token or a fault. -/
def position : Except ScanError Token → Nat
  | .ok t => t.position
  | .error e => e.position

theorem position_last (source : List Char) (stop : Nat) (fault : Option ScanFault) :
    position (last source stop fault) = stop := by
  cases fault <;> rfl

/-- An item stands behind the lexemes of the tokens before it. -/
theorem items_eq_append {source : String} {before : List Token} {item : Except ScanError Token}
    {after : List (Except ScanError Token)}
    (h : (ofString source).items = before.map .ok ++ item :: after) :
    ∃ xs ys, (split source.toList).1 = xs ++ ys ∧ before = place 0 xs ∧
      position item = byteLength (joined xs) := by
  have hok : ∀ t u : Token, (.ok t : Except ScanError Token) = .ok u → t = u :=
    fun _ _ => Except.ok.inj
  rw [items_ofString, itemsFrom, Nat.zero_add] at h
  rcases List.eq_nil_or_concat after with rfl | ⟨init, final, rfl⟩
  · obtain ⟨hbefore, hitem⟩ := List.append_inj' h rfl
    refine ⟨_, [], (List.append_nil _).symm, ((List.map_inj_right hok).1 hbefore).symm, ?_⟩
    rw [← (List.cons.inj hitem).1, position_last]
  · rw [List.concat_eq_append, ← List.cons_append, ← List.append_assoc] at h
    obtain ⟨htokens, -⟩ := List.append_inj' h rfl
    obtain ⟨ts, us, hplace, hbefore, hrest⟩ := List.map_eq_append_iff.1 htokens
    obtain ⟨xs, ys, hsplit, rfl, rfl⟩ := place_eq_append hplace
    rw [Nat.zero_add] at hrest
    refine ⟨xs, ys, hsplit, ((List.map_inj_right hok).1 hbefore).symm, ?_⟩
    cases ys with
    | nil => cases hrest
    | cons l ys =>
      rw [place, List.map_cons] at hrest
      rw [← (List.cons.inj hrest).1]
      rfl

/-- The line of a token or a fault is one more than the number of line ends before it. -/
theorem line_of_items {source : String} {before : List Token} {item : Except ScanError Token}
    {after : List (Except ScanError Token)}
    (h : (ofString source).items = before.map .ok ++ item :: after) :
    (Location.ofPosition source.toList (position item)).line =
      1 + before.countP (·.kind = .lineEnd) := by
  obtain ⟨xs, ys, hsplit, rfl, hposition⟩ := items_eq_append h
  rw [hposition, line_ofPosition_joined hsplit, countP_place (· = .lineEnd)]

/-- The end of the input comes last. -/
theorem kind_ne_inputEnd_of_items {source : String} {before : List Token}
    {item : Except ScanError Token} {after : List (Except ScanError Token)}
    (h : (ofString source).items = before.map .ok ++ item :: after) :
    ∀ t ∈ before, t.kind ≠ .inputEnd := by
  obtain ⟨xs, ys, hsplit, rfl, -⟩ := items_eq_append h
  intro t ht
  obtain ⟨us, l, vs, rfl, rfl⟩ := mem_place ht
  have hl : l ∈ (split source.toList).1 := by
    rw [hsplit]
    simp
  exact (spells_of_mem_split hl).kind_ne_inputEnd

theorem endsLine_of_items {source : String} {before : List Token}
    {item : Except ScanError Token} {after : List (Except ScanError Token)}
    (h : (ofString source).items = before.map .ok ++ item :: after) :
    ∀ t ∈ before, t.endsLine = decide (t.kind = .lineEnd) := by
  intro t ht
  have hend := beq_eq_false_iff_ne.2 (kind_ne_inputEnd_of_items h t ht)
  rw [Token.endsLine, Token.Kind.endsLine, hend, Bool.or_false]
  rfl

/-- A token stands in the script where it says. -/
theorem restAt_of_mem {source : String} {t : Token} (h : .ok t ∈ (ofString source).items)
    (hkind : t.kind ≠ .inputEnd) : ∃ rest, RestAt source t.position (t.lexeme.toList ++ rest) := by
  obtain ⟨xs, l, ys, hsplit, rfl⟩ := exists_lexeme_of_mem h hkind
  obtain ⟨tail, hsource, hrest⟩ := exists_rest_of_split hsplit
  obtain ⟨c, rest, n, rfl, -, hl, -⟩ := split_eq_cons (congrArg Prod.fst hrest)
  refine ⟨rest.drop n, joined xs, ?_, rfl⟩
  simpa [ofLexeme, hl] using hsource

/-- A word stands for itself. -/
theorem lexeme_of_word {source : String} {t : Token} (h : .ok t ∈ (ofString source).items)
    (hword : t.kind = .word) : t.lexeme = t.text := by
  have hkind : t.kind ≠ .inputEnd := by rw [hword]; decide
  obtain ⟨xs, l, ys, -, rfl⟩ := exists_lexeme_of_mem h hkind
  have hl : l.kind = .word := hword
  simp [ofLexeme, Lexeme.text, hl, Kind.meaning]

/-- A fault is located where the script has it. -/
theorem exists_faultAt {source : String} {e : ScanError} (h : (ofString source).error? = some e) :
    e.location = Location.ofPosition source.toList e.position ∧
      ∃ rest, RestAt source e.position rest ∧ FaultAt e.fault rest := by
  unfold ofString at h
  rcases hsplit : split source.toList with ⟨ls, fault⟩
  rcases split_cases source.toList with ⟨hnone, -⟩ | ⟨fault', rest, hsome, hrest, hfault⟩
  · rw [hsplit] at hnone
    obtain rfl : fault = none := hnone
    rw [ofChars_of_none hsplit] at h
    nomatch h
  · rw [hsplit] at hsome hrest
    obtain rfl : fault = some fault' := hsome
    rw [ofChars_of_some hsplit] at h
    obtain rfl := Option.some.inj h
    exact ⟨rfl, rest, ⟨joined ls, hrest, rfl⟩, hfault⟩

end Scan

end Runbook
