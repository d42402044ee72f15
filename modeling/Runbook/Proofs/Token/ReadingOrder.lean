import Runbook.Proofs.Text.ReadingOrder
import Runbook.Proofs.Token.Cursor
import Runbook.Proofs.Token.Locations

/-!
# Tokens in the order of reading

No token starts inside of a line end, as a carriage return takes its line feed along
(`Scan.not_splitsLineEnd`), and each starts further on than the ones before
(`Scan.pairwise_starts`). Their locations are therefore in the order of reading as well, and no two
of them are equal (`locations_in_order`).
-/

namespace Runbook

open Text

namespace Lexeme

/-- A lexeme that ends with a carriage return has no line feed behind it. -/
theorem head?_drop_of_measure {c : Char} {cs : List Char} {k : Token.Kind} {n : Nat}
    (h : measure c cs = .ok (k, n)) (hlast : (c :: cs.take n).getLast? = some '\r') :
    (cs.drop n).head? ≠ some '\n' := by
  have hspells := spells_of_measure h
  by_cases hk : k = .lineEnd
  · subst hk
    have hc := hspells.head?_of_lineEnd
    simp only [List.head?_cons, Option.some.injEq] at hc
    rcases hc with rfl | rfl
    · obtain rfl : 0 = n := (Prod.mk.inj (Except.ok.inj h)).2
      nomatch hlast
    · rw [measure_return] at h
      obtain rfl := (Prod.mk.inj (Except.ok.inj h)).2
      by_cases hhead : cs.head? = some '\n'
      · -- The carriage return has taken the line feed along, and that is the last character.
        obtain ⟨rest, rfl⟩ := List.head?_eq_some_iff.1 hhead
        nomatch hlast
      · rwa [if_neg hhead]
  · have hline := (hspells.singleLine hk).1
    exact absurd rfl (hline '\r' (List.mem_of_getLast? hlast)).1

theorem joined_concat (init : List Lexeme) (l : Lexeme) :
    joined (init.concat l) = joined init ++ l.written := by
  rw [List.concat_eq_append, Token.joined_append, joined_cons]
  exact congrArg (joined init ++ ·) (List.append_nil _)

end Lexeme

namespace Token

open Lexeme

/-- Each lexeme stands further on than the ones before, and so does what follows them all. -/
theorem pairwise_place {ls : List Lexeme} (h : ∀ l ∈ ls, l.written ≠ []) (position : Nat) :
    ((place position ls).map (·.position) ++ [position + byteLength (joined ls)]).Pairwise
      (· < ·) := by
  induction ls generalizing position with
  | nil => exact List.pairwise_singleton _ _
  | cons l ls ih =>
    obtain ⟨hl, hls⟩ := List.forall_mem_cons.1 h
    obtain ⟨c, cs, hwritten⟩ := List.exists_cons_of_ne_nil hl
    have hsize : 0 < byteLength l.written := hwritten ▸ byteLength_pos c cs
    have hrest := ih hls (position + byteLength l.written)
    rw [joined_cons, byteLength_append, ← Nat.add_assoc, place, List.map_cons, List.cons_append,
      List.pairwise_cons]
    refine ⟨fun start hstart => ?_, hrest⟩
    have hle : position + byteLength l.written ≤ start := by
      rcases List.mem_append.1 hstart with hstart | hstart
      · obtain ⟨t, ht, rfl⟩ := List.mem_map.1 hstart
        obtain ⟨xs, m, ys, -, rfl⟩ := mem_place ht
        exact Nat.le_add_right _ _
      · rw [List.mem_singleton.1 hstart]
        exact Nat.le_add_right _ _
    exact Nat.lt_of_lt_of_le (Nat.lt_add_of_pos_right hsize) hle

end Token

namespace Scan

open Lexeme Token

variable {source : String} {item : Except ScanError Token}

/-- An item starts behind the first lexemes of the script. -/
theorem exists_split_of_mem (h : item ∈ (ofString source).items) :
    ∃ xs ys, (split source.toList).1 = xs ++ ys ∧ position item = byteLength (joined xs) := by
  rw [items_ofString, itemsFrom, Nat.zero_add, List.mem_append, List.mem_singleton] at h
  rcases h with h | rfl
  · obtain ⟨t, ht, rfl⟩ := List.mem_map.1 h
    obtain ⟨xs, l, ys, hsplit, rfl⟩ := mem_place ht
    exact ⟨xs, l :: ys, hsplit, Nat.zero_add _⟩
  · exact ⟨_, [], (List.append_nil _).symm, position_last _ _ _⟩

theorem isBoundary_of_mem (h : item ∈ (ofString source).items) :
    IsBoundary source (position item) := by
  obtain ⟨xs, ys, hsplit, hposition⟩ := exists_split_of_mem h
  obtain ⟨rest, hsource, -⟩ := exists_rest_of_split hsplit
  have hrest : RestAt source (position item) rest := ⟨joined xs, hsource, hposition.symm⟩
  exact hrest.isBoundary

/-- No token starts inside of a line end, and no fault is there. -/
theorem not_splitsLineEnd (h : item ∈ (ofString source).items) :
    ¬ SplitsLineEnd source (position item) := by
  obtain ⟨xs, ys, hsplit, hposition⟩ := exists_split_of_mem h
  obtain ⟨rest, hsource, -⟩ := exists_rest_of_split hsplit
  rw [hposition, splitsLineEnd_iff hsource]
  rintro ⟨hlast, hhead⟩
  rcases List.eq_nil_or_concat xs with rfl | ⟨init, l, rfl⟩
  · nomatch hlast
  · -- The lexeme that ends with the carriage return has been measured with the line feed in view.
    rw [List.concat_eq_append, List.append_assoc] at hsplit
    obtain ⟨c, cs, n, hcs, hm, hwritten⟩ := measure_of_split hsplit
    rw [joined_concat, hwritten] at hsource hlast
    have hrest : rest = cs.drop n := by
      have hsame : joined init ++ (c :: cs.take n ++ cs.drop n) =
          joined init ++ (c :: cs.take n ++ rest) := by
        rw [List.cons_append, List.take_append_drop, ← hcs, hsource, List.append_assoc]
      exact (List.append_cancel_left (List.append_cancel_left hsame)).symm
    rw [List.getLast?_append_of_ne_nil _ (List.cons_ne_nil _ _)] at hlast
    exact head?_drop_of_measure hm hlast (hrest ▸ hhead)

/-- The items of a script start further and further on. -/
theorem pairwise_starts (source : String) :
    ((ofString source).items.map position).Pairwise (· < ·) := by
  have hplace := pairwise_place
    (fun l (hl : l ∈ (split source.toList).1) => (spells_of_mem_split hl).ne_nil) 0
  rw [items_ofString, itemsFrom, List.map_append, List.map_map, List.map_singleton, position_last]
  exact hplace

end Scan

/-- The location of a byte position does not decrease with the position. It increases from every
boundary on that is not inside of a line end, and there the line counts the line ends that start
before, and the column the characters behind the last of them. The tokens of a script and its fault
start at such places, so no two of them are at one location. -/
theorem locations_in_order (source : String) :
    (∀ p q, p ≤ q → Location.ofPosition source.toList p ≤ Location.ofPosition source.toList q) ∧
    (∀ p q, IsBoundary source p → ¬ SplitsLineEnd source p → IsBoundary source q → p < q →
      Location.ofPosition source.toList p < Location.ofPosition source.toList q) ∧
    (∀ p, IsBoundary source p → ¬ SplitsLineEnd source p →
      let ends := (LineEnd.allFrom 0 source.toList).filter (·.start < p)
      (Location.ofPosition source.toList p).line = 1 + ends.length ∧
        ∃ row, between? source (LineEnd.behindLast 0 ends) p = some row ∧
          (Location.ofPosition source.toList p).column = 1 + row.length) ∧
    ((TokenCursor.start source).rest.1.map Scan.position).Pairwise fun p q =>
      p < q ∧ Location.ofPosition source.toList p < Location.ofPosition source.toList q := by
  have hincreasing : ∀ p q, IsBoundary source p → ¬ SplitsLineEnd source p →
      IsBoundary source q → p < q →
      Location.ofPosition source.toList p < Location.ofPosition source.toList q := by
    intro p q hp hsplits hq hlt
    apply Location.ofPosition_lt_of_lt hp hsplits _ hlt
    exact Nat.lt_of_lt_of_le hlt hq.le_utf8ByteSize
  refine ⟨fun p q => Location.ofPosition_mono source.toList, hincreasing,
    fun p => Location.location_eq, ?_⟩
  rw [TokenCursor.rest_start]
  refine (Scan.pairwise_starts source).imp_of_mem ?_
  intro p q hp hq hlt
  obtain ⟨item, hitem, rfl⟩ := List.mem_map.1 hp
  obtain ⟨later, hlater, rfl⟩ := List.mem_map.1 hq
  refine ⟨hlt, hincreasing _ _ ?_ ?_ ?_ hlt⟩
  · exact Scan.isBoundary_of_mem hitem
  · exact Scan.not_splitsLineEnd hitem
  · exact Scan.isBoundary_of_mem hlater

/-- Four line ends of three kinds, one of them of two characters, and an `é` of two bytes. Of the
boundaries only the two around the line feed at 2 are at one location, as it belongs to the carriage
return before it. -/
theorem locations_in_order_mixed :
    let source := "\r\r\n\n\r\"é\"x"
    let located := Location.ofPosition source.toList
    located 7 ≤ located 8 ∧
    (SplitsLineEnd source 2 ∧ located 2 = located 3) ∧
    (¬ SplitsLineEnd source 1 ∧ located 1 < located 2) ∧
    (¬ SplitsLineEnd source 9 ∧ (located 9).line = 1 + 4 ∧
      ∃ row, between? source 5 9 = some row ∧ (located 9).column = 1 + row.length) ∧
    ([0, 1, 3, 4, 5, 9, 10] : List Nat).Pairwise fun p q => p < q ∧ located p < located q := by
  intro source located
  obtain ⟨hmono, hincreasing, hlocated, htokens⟩ := locations_in_order source
  have hone : source.toList = ['\r'] ++ "\r\n\n\r\"é\"x".toList := by decide
  have htwo : source.toList = ['\r', '\r'] ++ "\n\n\r\"é\"x".toList := by decide
  have hnine : source.toList = "\r\r\n\n\r\"é\"".toList ++ ['x'] := by decide
  have hone_apart : ¬ SplitsLineEnd source 1 :=
    fun h => absurd ((splitsLineEnd_iff hone).1 h) (by decide)
  have hnine_apart : ¬ SplitsLineEnd source 9 :=
    fun h => absurd ((splitsLineEnd_iff hnine).1 h) (by decide)
  refine ⟨hmono 7 8 (by decide), ⟨?_, by decide⟩, ⟨hone_apart, ?_⟩, ⟨hnine_apart, ?_⟩, ?_⟩
  · exact (splitsLineEnd_iff htwo).2 (by decide)
  · apply hincreasing 1 2 _ hone_apart _ (by decide)
    · exact RestAt.isBoundary ⟨_, hone, rfl⟩
    · exact RestAt.isBoundary ⟨_, htwo, rfl⟩
  · have hends : (LineEnd.allFrom 0 source.toList).filter (·.start < 9) =
        [⟨0, 1⟩, ⟨1, 3⟩, ⟨3, 4⟩, ⟨4, 5⟩] := by
      decide
    have hplace := hlocated 9 (RestAt.isBoundary ⟨_, hnine, rfl⟩) hnine_apart
    rw [hends] at hplace
    exact hplace
  · have hstarts :
        (TokenCursor.start source).rest.1.map Scan.position = [0, 1, 3, 4, 5, 9, 10] := by
      cbv
    rwa [hstarts] at htokens

end Runbook
