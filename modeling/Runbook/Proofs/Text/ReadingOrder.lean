import Mathlib.Data.Prod.Lex
import Runbook.Proofs.Text.LineEnds
import Runbook.Text.Bytes

/-!
# The order of locations

Locations are ordered as they are read, by their lines and within a line by their columns. A step
over a character never leads back, and it leads on unless the character is the line feed of a
carriage return (`lt_next`). So the location of a byte position never decreases with the position
(`ofPosition_mono`), and it increases from every place on that is not inside of a line end
(`ofPosition_lt_of_lt`).

At such a place the location can be told from the line ends that start before it
(`LineEnd.allFrom`): their number gives the line, and the characters behind the last of them the
column (`location_eq`).
-/

namespace Runbook

namespace Location

open Text

/-! ## Steps in the order of reading -/

/-- Locations by their lines, and within a line by their columns. -/
def readingKey (l : Location) : ℕ ×ₗ ℕ := toLex (l.line, l.column)

theorem readingKey_injective : Function.Injective readingKey := by
  rintro ⟨line, column⟩ ⟨line', column'⟩ h
  obtain ⟨rfl, rfl⟩ := Prod.mk.inj (toLex.injective h)
  rfl

instance : PartialOrder Location := PartialOrder.lift readingKey readingKey_injective

theorem lt_iff {l m : Location} :
    l < m ↔ l.line < m.line ∨ l.line = m.line ∧ l.column < m.column :=
  Prod.Lex.toLex_lt_toLex

theorem le_iff {l m : Location} :
    l ≤ m ↔ l.line < m.line ∨ l.line = m.line ∧ l.column ≤ m.column :=
  Prod.Lex.toLex_le_toLex

/-- A character leads on, unless it is the line feed of a carriage return. -/
theorem lt_next {afterReturn : Bool} {c : Char} (h : afterReturn = true → c ≠ '\n')
    (l : Location) : l < l.next afterReturn c := by
  unfold next
  split
  · rename_i hjoined
    rw [Bool.and_eq_true, decide_eq_true_eq] at hjoined
    exact absurd hjoined.1 (h hjoined.2)
  · rw [lt_iff]
    split
    · exact .inl (Nat.lt_add_one _)
    · exact .inr ⟨rfl, Nat.lt_add_one _⟩

theorem le_next (l : Location) (afterReturn : Bool) (c : Char) : l ≤ l.next afterReturn c := by
  by_cases h : afterReturn = true → c ≠ '\n'
  · exact le_of_lt (lt_next h l)
  · unfold next
    rw [if_pos (by simpa [and_comm] using h)]

theorem le_walk (l : Location) (afterReturn : Bool) (cs : List Char) (n : Nat) :
    l ≤ l.walk afterReturn cs n := by
  induction cs generalizing l afterReturn n with
  | nil => exact le_rfl
  | cons c cs ih =>
    unfold walk
    split
    · exact le_rfl
    · exact le_trans (le_next l afterReturn c) (ih _ _ _)

/-- A longer walk does not end before a shorter one. -/
theorem walk_mono {m n : Nat} (h : m ≤ n) (l : Location) (afterReturn : Bool) (cs : List Char) :
    l.walk afterReturn cs m ≤ l.walk afterReturn cs n := by
  induction cs generalizing l afterReturn m n with
  | nil => exact le_rfl
  | cons c cs ih =>
    by_cases hm : m = 0
    · rw [hm, walk_zero]
      exact le_walk l afterReturn (c :: cs) n
    · rw [walk, walk, if_neg hm, if_neg (by omega)]
      apply ih
      omega

theorem line_le_of_le {l m : Location} (h : l ≤ m) : l.line ≤ m.line := by
  rcases le_iff.1 h with hlt | ⟨heq, -⟩
  · exact Nat.le_of_lt hlt
  · exact Nat.le_of_eq heq

/-- Lines do not go back: a position further on is in the same line or below. -/
theorem line_walk_mono {m n : Nat} (h : m ≤ n) (l : Location) (afterReturn : Bool)
    (cs : List Char) : (l.walk afterReturn cs m).line ≤ (l.walk afterReturn cs n).line :=
  line_le_of_le (walk_mono h l afterReturn cs)

theorem ofPosition_mono (source : List Char) {p q : Nat} (h : p ≤ q) :
    ofPosition source p ≤ ofPosition source q :=
  walk_mono h start false source

theorem lt_walk {afterReturn : Bool} {c : Char} (h : afterReturn = true → c ≠ '\n') {n : Nat}
    (hn : 0 < n) (l : Location) (cs : List Char) : l < l.walk afterReturn (c :: cs) n := by
  rw [walk, if_neg (by omega)]
  exact lt_of_lt_of_le (lt_next h l) (le_walk _ _ _ _)

/-- From a character that does not belong to the line end before it, the location increases. -/
theorem ofPosition_lt {xs cs : List Char} {c : Char} (h : xs.getLast? = some '\r' → c ≠ '\n')
    {q : Nat} (hq : byteLength xs < q) :
    ofPosition (xs ++ c :: cs) (byteLength xs) < ofPosition (xs ++ c :: cs) q := by
  obtain ⟨n, rfl⟩ := Nat.exists_eq_add_of_lt hq
  have hplace := walk_append start false xs (c :: cs) 0
  rw [Nat.add_zero, walk_zero] at hplace
  unfold ofPosition
  rw [hplace, Nat.add_assoc, walk_append]
  apply lt_walk
  · rw [afterReturn_eq]
    exact h
  · exact Nat.succ_pos n

theorem walk_of_singleLine {cs : List Char} (h : SingleLine cs) (l : Location)
    (afterReturn : Bool) :
    l.walk afterReturn cs (byteLength cs) = ⟨l.line, l.column + cs.length⟩ := by
  induction cs generalizing l afterReturn with
  | nil => rfl
  | cons c cs ih =>
    obtain ⟨hc, hcs⟩ := singleLine_cons.1 h
    have hnext : l.next afterReturn c = ⟨l.line, l.column + 1⟩ := by
      unfold next
      simp [hc]
    rw [byteLength_cons, walk_cons, hnext, ih hcs, List.length_cons, Nat.add_right_comm,
      Nat.add_assoc]

end Location

/-! ## The line ends of a text -/

namespace Text

/-- A line end of a text: the byte position at which it starts, and the one behind it. -/
structure LineEnd where
  start : Nat
  stop : Nat
deriving DecidableEq, Repr

namespace LineEnd

/-- The line ends of a text, the first character of which stands at a position. -/
def allFrom (position : Nat) : List Char → List LineEnd
  | [] => []
  | '\r' :: '\n' :: cs => ⟨position, position + 2⟩ :: allFrom (position + 2) cs
  | c :: cs =>
    if c = '\r' ∨ c = '\n' then ⟨position, position + 1⟩ :: allFrom (position + 1) cs
    else allFrom (position + c.utf8Size) cs

theorem allFrom_cons {c : Char} {cs : List Char} (h : c = '\r' → cs.head? ≠ some '\n')
    (position : Nat) :
    allFrom position (c :: cs) =
      if c = '\r' ∨ c = '\n' then ⟨position, position + 1⟩ :: allFrom (position + 1) cs
      else allFrom (position + c.utf8Size) cs := by
  rw [allFrom.eq_3]
  rintro _ hc rfl
  exact h hc rfl

theorem length_allFrom (position : Nat) (cs : List Char) :
    (allFrom position cs).length = lineEnds cs := by
  fun_induction allFrom position cs with
  | case1 => rfl
  | case2 position cs ih => exact congrArg (· + 1) ih
  | case3 position c cs hjoin hc ih =>
    rw [lineEnds.eq_3 c cs hjoin, if_pos hc, List.length_cons, ih]
  | case4 position c cs hjoin hc ih => rw [lineEnds.eq_3 c cs hjoin, if_neg hc, ih]

/-- A line end starts in its text. -/
theorem start_of_mem {position : Nat} {cs : List Char} {e : LineEnd}
    (h : e ∈ allFrom position cs) :
    position ≤ e.start ∧ e.start < position + byteLength cs := by
  fun_induction allFrom position cs with
  | case1 => nomatch h
  | case2 position cs ih =>
    have hsize : byteLength ('\r' :: '\n' :: cs) = 2 + byteLength cs := by
      rw [byteLength_cons, byteLength_cons, ← Nat.add_assoc]
      rfl
    rcases List.mem_cons.1 h with rfl | h
    · dsimp only
      omega
    · have := ih h
      omega
  | case3 position c cs hjoin hc ih =>
    have hsize : byteLength (c :: cs) = 1 + byteLength cs := by
      rcases hc with rfl | rfl <;> rfl
    rcases List.mem_cons.1 h with rfl | h
    · dsimp only
      omega
    · have := ih h
      omega
  | case4 position c cs hjoin hc ih =>
    have := ih h
    rw [byteLength_cons]
    omega

/-- A carriage return is not joined to a line feed behind the text, if it is to none in the text. -/
theorem head?_append_ne {c : Char} {cs ys : List Char}
    (hjoin : ∀ rest, c = '\r' → cs = '\n' :: rest → False)
    (h : (c :: cs).getLast? = some '\r' → ys.head? ≠ some '\n') :
    c = '\r' → (cs ++ ys).head? ≠ some '\n' := by
  rintro rfl
  cases cs with
  | nil => exact h rfl
  | cons d cs =>
    intro hd
    exact hjoin cs rfl (congrArg (· :: cs) (Option.some.inj hd))

theorem getLast?_cons_of_eq {c d : Char} {cs : List Char} (h : cs.getLast? = some d) :
    (c :: cs).getLast? = some d := by
  rw [List.getLast?_cons, h, Option.getD_some]

/-- The line ends of two texts side by side, if no line end goes from the one into the other. -/
theorem allFrom_append {xs ys : List Char} (h : xs.getLast? = some '\r' → ys.head? ≠ some '\n')
    (position : Nat) :
    allFrom position (xs ++ ys) =
      allFrom position xs ++ allFrom (position + byteLength xs) ys := by
  fun_induction allFrom position xs with
  | case1 => rfl
  | case2 position cs ih =>
    have hrest := ih fun hlast => h (getLast?_cons_of_eq (getLast?_cons_of_eq hlast))
    rw [List.cons_append, List.cons_append, allFrom, hrest, List.cons_append, byteLength_cons,
      byteLength_cons, ← Nat.add_assoc, ← Nat.add_assoc]
    rfl
  | case3 position c cs hjoin hc ih =>
    have hrest := ih fun hlast => h (getLast?_cons_of_eq hlast)
    have hsize : c.utf8Size = 1 := by rcases hc with rfl | rfl <;> rfl
    rw [List.cons_append, allFrom_cons (head?_append_ne hjoin h), if_pos hc, hrest,
      List.cons_append, byteLength_cons, hsize, Nat.add_assoc]
  | case4 position c cs hjoin hc ih =>
    have hrest := ih fun hlast => h (getLast?_cons_of_eq hlast)
    rw [List.cons_append, allFrom_cons (head?_append_ne hjoin h), if_neg hc, hrest,
      byteLength_cons, Nat.add_assoc]

/-- The line ends that start before a place are those of the text before it. -/
theorem filter_allFrom {xs ys : List Char} (h : xs.getLast? = some '\r' → ys.head? ≠ some '\n') :
    (allFrom 0 (xs ++ ys)).filter (·.start < byteLength xs) = allFrom 0 xs := by
  have hbefore : (allFrom 0 xs).filter (·.start < byteLength xs) = allFrom 0 xs := by
    apply List.filter_eq_self.2
    intro e he
    have := start_of_mem he
    exact decide_eq_true (by omega)
  have hafter : (allFrom (0 + byteLength xs) ys).filter (·.start < byteLength xs) = [] := by
    apply List.filter_eq_nil_iff.2
    intro e he
    have := start_of_mem he
    rw [decide_eq_true_eq]
    omega
  rw [allFrom_append h, List.filter_append, hbefore, hafter, List.append_nil]

theorem allFrom_of_singleLine {cs : List Char} (h : SingleLine cs) (position : Nat) :
    allFrom position cs = [] := by
  apply List.eq_nil_of_length_eq_zero
  have hnone := h.lineEnds_append []
  rw [List.append_nil] at hnone
  rw [length_allFrom, hnone]
  rfl

/-- Behind a line without a line end the next line end is that of the line. -/
theorem allFrom_lineBreak {a w b : List Char} (ha : SingleLine a) (h : LineBreak a w b)
    (position : Nat) :
    allFrom position (a ++ (w ++ b)) =
      ⟨position + byteLength a, position + byteLength a + byteLength w⟩ ::
        allFrom (position + byteLength a + byteLength w) b := by
  have hapart : a.getLast? = some '\r' → (w ++ b).head? ≠ some '\n' :=
    fun hlast => absurd rfl (ha '\r' (List.mem_of_getLast? hlast)).1
  rw [allFrom_append hapart, allFrom_of_singleLine ha, List.nil_append]
  cases h with
  | feed => rfl
  | returnFeed => rfl
  | carriageReturn hhead =>
    rw [List.singleton_append, allFrom_cons fun _ => hhead, if_pos (.inl rfl)]
    rfl

/-- The place behind the last of some line ends, or the given place if there is none. -/
def behindLast (place : Nat) (ends : List LineEnd) : Nat := ends.getLast?.elim place (·.stop)

theorem behindLast_cons (place : Nat) (e : LineEnd) (ends : List LineEnd) :
    behindLast place (e :: ends) = behindLast e.stop ends := by
  unfold behindLast
  rw [List.getLast?_cons]
  cases ends.getLast? <;> rfl

/-- The end of a text stands in the row of characters behind its last line end. -/
theorem exists_row (cs : List Char) (position : Nat) :
    ∃ front row, cs = front ++ row ∧
      behindLast position (allFrom position cs) = position + byteLength front ∧
      (Location.ofPosition cs (byteLength cs)).column = 1 + row.length := by
  induction cs using lineBreak_induction generalizing position with
  | single cs h =>
    refine ⟨[], cs, rfl, ?_, ?_⟩
    · rw [allFrom_of_singleLine h]
      rfl
    · unfold Location.ofPosition
      rw [Location.walk_of_singleLine h]
      rfl
  | lineBreak a w b ha hbreak ih =>
    obtain ⟨front, row, hb, hplace, hcolumn⟩ := ih (position + byteLength a + byteLength w)
    refine ⟨a ++ (w ++ front), row, ?_, ?_, ?_⟩
    · rw [hb, List.append_assoc, List.append_assoc]
    · rw [allFrom_lineBreak ha hbreak, behindLast_cons, hplace, byteLength_append,
        byteLength_append, Nat.add_assoc, Nat.add_assoc]
    · rw [byteLength_append, byteLength_append, Location.ofPosition_lineBreak hbreak]
      exact hcolumn

end LineEnd

/-! ## Places that are not inside of a line end -/

/-- The position is between a carriage return and its line feed. -/
def SplitsLineEnd (source : String) (position : Nat) : Prop :=
  ∃ before after, source.toList = before ++ '\r' :: '\n' :: after ∧
    position = byteLength before + 1

/-- Where a text can be divided, its two parts are told by the number of bytes of the first. -/
theorem append_inj_of_byteLength {u v x y : List Char} (h : u ++ x = v ++ y)
    (hsize : byteLength u = byteLength v) : u = v ∧ x = y := by
  induction u generalizing v with
  | nil =>
    cases v with
    | nil => exact ⟨rfl, h⟩
    | cons d v =>
      have := byteLength_pos d v
      rw [byteLength_nil] at hsize
      omega
  | cons c u ih =>
    cases v with
    | nil =>
      have := byteLength_pos c u
      rw [byteLength_nil] at hsize
      omega
    | cons d v =>
      obtain ⟨rfl, htail⟩ := List.cons.inj h
      rw [byteLength_cons, byteLength_cons] at hsize
      obtain ⟨rfl, rfl⟩ := ih htail (Nat.add_left_cancel hsize)
      exact ⟨rfl, rfl⟩

theorem splitsLineEnd_iff {source : String} {before rest : List Char}
    (h : source.toList = before ++ rest) :
    SplitsLineEnd source (byteLength before) ↔
      before.getLast? = some '\r' ∧ rest.head? = some '\n' := by
  constructor
  · rintro ⟨init, after, hends, hinside⟩
    have hreturn : byteLength (init ++ ['\r']) = byteLength init + 1 := byteLength_append _ _
    rw [h, ← List.singleton_append, ← List.append_assoc] at hends
    obtain ⟨rfl, rfl⟩ := append_inj_of_byteLength hends (hinside.trans hreturn.symm)
    exact ⟨List.getLast?_concat, rfl⟩
  · rintro ⟨hlast, hhead⟩
    obtain ⟨init, rfl⟩ := List.getLast?_eq_some_iff.1 hlast
    obtain ⟨after, rfl⟩ := List.head?_eq_some_iff.1 hhead
    refine ⟨init, after, ?_, byteLength_append _ _⟩
    rw [h, List.append_assoc, List.singleton_append]

/-- A boundary of a text that is not inside of a line end: what stands on its two sides. -/
theorem exists_of_not_splitsLineEnd {source : String} {position : Nat}
    (hboundary : IsBoundary source position) (h : ¬ SplitsLineEnd source position) :
    ∃ before rest, source.toList = before ++ rest ∧ byteLength before = position ∧
      (before.getLast? = some '\r' → rest.head? ≠ some '\n') := by
  obtain ⟨rest, before, hsource, rfl⟩ := isBoundary_iff.1 hboundary
  rw [splitsLineEnd_iff hsource] at h
  exact ⟨before, rest, hsource, rfl, fun hlast hhead => h ⟨hlast, hhead⟩⟩

end Text

namespace Location

open Text

variable {source : String} {p : Nat}

/-- From a place that is not inside of a line end, the location increases. -/
theorem ofPosition_lt_of_lt (hboundary : IsBoundary source p) (h : ¬ SplitsLineEnd source p)
    {q : Nat} (hp : p < source.utf8ByteSize) (hq : p < q) :
    ofPosition source.toList p < ofPosition source.toList q := by
  obtain ⟨before, rest, hsource, rfl, happart⟩ := exists_of_not_splitsLineEnd hboundary h
  cases rest with
  | nil =>
    rw [← byteLength_toList, hsource, List.append_nil] at hp
    exact absurd hp (Nat.lt_irrefl _)
  | cons c rest =>
    rw [hsource]
    exact ofPosition_lt (fun hlast hc => happart hlast (congrArg some hc)) hq

/-- At a place that is not inside of a line end, the line is one more than the number of line ends
that start before it, and the column one more than the number of characters that stand between the
last of them, or the front of the text, and the place. -/
theorem location_eq (hboundary : IsBoundary source p) (h : ¬ SplitsLineEnd source p) :
    let ends := (LineEnd.allFrom 0 source.toList).filter (·.start < p)
    (ofPosition source.toList p).line = 1 + ends.length ∧
      ∃ row, between? source (LineEnd.behindLast 0 ends) p = some row ∧
        (ofPosition source.toList p).column = 1 + row.length := by
  intro ends
  obtain ⟨before, rest, hsource, rfl, happart⟩ := exists_of_not_splitsLineEnd hboundary h
  have hends : ends = LineEnd.allFrom 0 before := by
    simp only [ends, hsource]
    exact LineEnd.filter_allFrom happart
  obtain ⟨front, row, hbefore, hplace, hcolumn⟩ := LineEnd.exists_row before 0
  rw [hends, hplace, hsource, ofPosition_append (Nat.le_refl _)]
  constructor
  · rw [LineEnd.length_allFrom]
    exact @line_walk before false nofun start
  · refine ⟨String.ofList row, ?_, ?_⟩
    · have hrow : RestAt source (byteLength front) (row ++ rest) :=
        ⟨front, by rw [hsource, hbefore, List.append_assoc], rfl⟩
      rw [Nat.zero_add, hbefore, byteLength_append]
      exact hrow.between?
    · rw [String.length_ofList]
      exact hcolumn

end Location

end Runbook
