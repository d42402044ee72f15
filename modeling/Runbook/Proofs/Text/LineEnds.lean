import Runbook.Text.Location

/-!
# Line ends

A line ends with a line feed, a carriage return, or a carriage return and its line feed. Between two
texts a line end stands by itself (`LineBreak`) if no character beside it would join it to another
line end. The locations of a text are then local to its lines: those before a line break do not
depend on what follows it (`ofPosition_append`), and those after it are the locations of the text
after it, so many lines further down (`ofPosition_lineBreak`). What holds of a single line and is
kept behind a line break holds of every text (`lineBreak_induction`).
-/

namespace Runbook

namespace Text

/-! ## Counting line ends -/

/-- The number of line ends; a carriage return and its line feed are one. -/
def lineEnds : List Char → Nat
  | [] => 0
  | '\r' :: '\n' :: cs => lineEnds cs + 1
  | c :: cs => if c = '\r' ∨ c = '\n' then lineEnds cs + 1 else lineEnds cs

/-- There is no line end in the text. -/
def SingleLine (cs : List Char) : Prop := ∀ c ∈ cs, c ≠ '\r' ∧ c ≠ '\n'

-- Not by searching: another instance for such a statement goes through all characters there are.
instance (cs : List Char) : Decidable (SingleLine cs) :=
  List.decidableBAll (fun c => c ≠ '\r' ∧ c ≠ '\n') cs

@[simp] theorem singleLine_nil : SingleLine [] := nofun

@[simp] theorem singleLine_cons {c : Char} {cs : List Char} :
    SingleLine (c :: cs) ↔ (c ≠ '\r' ∧ c ≠ '\n') ∧ SingleLine cs :=
  List.forall_mem_cons

@[simp] theorem singleLine_append {xs ys : List Char} :
    SingleLine (xs ++ ys) ↔ SingleLine xs ∧ SingleLine ys :=
  List.forall_mem_append

theorem lineEnds_cons {c : Char} {cs : List Char} (h : c = '\r' → cs.head? ≠ some '\n') :
    lineEnds (c :: cs) = if c = '\r' ∨ c = '\n' then lineEnds cs + 1 else lineEnds cs := by
  rw [lineEnds.eq_3]
  rintro _ hc rfl
  exact h hc rfl

theorem SingleLine.lineEnds_append {w : List Char} (h : SingleLine w) (cs : List Char) :
    lineEnds (w ++ cs) = lineEnds cs := by
  induction w with
  | nil => rfl
  | cons c w ih =>
    obtain ⟨⟨hreturn, hfeed⟩, hw⟩ := singleLine_cons.1 h
    rw [List.cons_append, lineEnds_cons (fun hc => absurd hc hreturn), if_neg (by simp [*]), ih hw]

/-- The text between the two others is one line end, and none of their characters belongs to it. -/
inductive LineBreak (before : List Char) : List Char → List Char → Prop where
  | feed {after : List Char} : before.getLast? ≠ some '\r' → LineBreak before ['\n'] after
  | returnFeed {after : List Char} : LineBreak before ['\r', '\n'] after
  | carriageReturn {after : List Char} : after.head? ≠ some '\n' → LineBreak before ['\r'] after

/-! ## The lines of a text -/

/-- A text is a single line, or it is a line, a line break and the text behind it. -/
theorem singleLine_or_lineBreak (cs : List Char) :
    SingleLine cs ∨ ∃ a w b, cs = a ++ (w ++ b) ∧ SingleLine a ∧ LineBreak a w b := by
  induction cs with
  | nil => exact .inl singleLine_nil
  | cons c cs ih =>
    by_cases hfeed : c = '\n'
    · subst hfeed
      exact .inr ⟨[], ['\n'], cs, rfl, singleLine_nil, .feed nofun⟩
    by_cases hreturn : c = '\r'
    · subst hreturn
      refine .inr ?_
      by_cases hhead : cs.head? = some '\n'
      · obtain ⟨b, rfl⟩ := List.head?_eq_some_iff.1 hhead
        exact ⟨[], ['\r', '\n'], b, rfl, singleLine_nil, .returnFeed⟩
      · exact ⟨[], ['\r'], cs, rfl, singleLine_nil, .carriageReturn hhead⟩
    rcases ih with hcs | ⟨a, w, b, rfl, ha, hbreak⟩
    · exact .inl (singleLine_cons.2 ⟨⟨hreturn, hfeed⟩, hcs⟩)
    · have hline : SingleLine (c :: a) := singleLine_cons.2 ⟨⟨hreturn, hfeed⟩, ha⟩
      refine .inr ⟨c :: a, w, b, rfl, hline, ?_⟩
      cases hbreak with
      | feed => exact .feed fun hlast => (hline '\r' (List.mem_of_getLast? hlast)).1 rfl
      | returnFeed => exact .returnFeed
      | carriageReturn hhead => exact .carriageReturn hhead

theorem LineBreak.ne_nil {a w b : List Char} (h : LineBreak a w b) : w ≠ [] := by
  cases h <;> exact List.cons_ne_nil _ _

/-- Induction over the lines of a text. -/
@[elab_as_elim]
theorem lineBreak_induction {motive : List Char → Prop}
    (single : ∀ cs, SingleLine cs → motive cs)
    (lineBreak : ∀ a w b, SingleLine a → LineBreak a w b → motive b → motive (a ++ (w ++ b)))
    (cs : List Char) : motive cs := by
  rcases singleLine_or_lineBreak cs with hcs | ⟨a, w, b, hcs, ha, hbreak⟩
  · exact single cs hcs
  · have hshorter : b.length < cs.length := by
      have := List.length_pos_iff.2 hbreak.ne_nil
      rw [hcs, List.length_append, List.length_append]
      omega
    rw [hcs]
    exact lineBreak a w b ha hbreak (lineBreak_induction single lineBreak b)
termination_by cs.length

end Text

/-! ## Locations around a line break -/

namespace Location

open Text

/-- The same column, so many lines further down. -/
def down (lines : Nat) (l : Location) : Location := { l with line := l.line + lines }

theorem next_down (lines : Nat) (l : Location) (afterReturn : Bool) (c : Char) :
    (l.down lines).next afterReturn c = (l.next afterReturn c).down lines := by
  unfold next down
  split
  · rfl
  · split
    · simp only [Nat.add_right_comm]
    · rfl

theorem walk_down (lines : Nat) (l : Location) (afterReturn : Bool) (cs : List Char) (n : Nat) :
    (l.down lines).walk afterReturn cs n = (l.walk afterReturn cs n).down lines := by
  induction cs generalizing l afterReturn n with
  | nil => rfl
  | cons c cs ih =>
    unfold walk
    split
    · rfl
    · rw [next_down, ih]

theorem walk_zero (l : Location) (afterReturn : Bool) (cs : List Char) :
    l.walk afterReturn cs 0 = l := by
  cases cs <;> rfl

/-- That a carriage return stands before a text matters only if the text begins with a line feed. -/
theorem walk_afterReturn {cs : List Char} (h : cs.head? ≠ some '\n') (l : Location)
    (afterReturn : Bool) (n : Nat) : l.walk afterReturn cs n = l.walk false cs n := by
  cases cs with
  | nil => rfl
  | cons c cs =>
    have hc : ¬ c = '\n' := fun hc => h (congrArg some hc)
    unfold walk next
    simp [hc]

/-- One character further: the walk goes on behind the character. -/
theorem walk_cons (l : Location) (afterReturn : Bool) (c : Char) (cs : List Char) (n : Nat) :
    l.walk afterReturn (c :: cs) (c.utf8Size + n) =
      (l.next afterReturn c).walk (c == '\r') cs n := by
  have := c.utf8Size_pos
  rw [walk, if_neg (by omega), Nat.add_sub_cancel_left]

/-- Behind a text the walk goes on from where the text has led. -/
theorem walk_append (l : Location) (afterReturn : Bool) (xs ys : List Char) (n : Nat) :
    l.walk afterReturn (xs ++ ys) (byteLength xs + n) =
      (l.walk afterReturn xs (byteLength xs)).walk (xs.foldl (fun _ c => c == '\r') afterReturn)
        ys n := by
  induction xs generalizing l afterReturn with
  | nil => rw [List.nil_append, byteLength_nil, Nat.zero_add, walk_zero, List.foldl_nil]
  | cons c xs ih =>
    rw [List.cons_append, byteLength_cons, walk_cons, List.foldl_cons, Nat.add_assoc, walk_cons, ih]

/-- The walk is behind a carriage return where the text before ends with one. -/
theorem afterReturn_eq (xs : List Char) :
    xs.foldl (fun _ c => c == '\r') false = true ↔ xs.getLast? = some '\r' := by
  rcases List.eq_nil_or_concat xs with rfl | ⟨init, c, rfl⟩
  · exact iff_of_false Bool.false_ne_true nofun
  · simp

theorem walk_append_of_le {xs : List Char} {n : Nat} (h : n ≤ byteLength xs) (l : Location)
    (afterReturn : Bool) (ys : List Char) :
    l.walk afterReturn (xs ++ ys) n = l.walk afterReturn xs n := by
  induction xs generalizing l afterReturn n with
  | nil =>
    obtain rfl : n = 0 := Nat.le_zero.1 h
    rw [walk_zero, walk_zero]
  | cons c xs ih =>
    rw [byteLength_cons] at h
    rw [List.cons_append, walk, walk, ih (by omega)]

/-- A text leads down by as many lines as it has line ends, if its first character is not joined to
a carriage return before it. -/
theorem line_walk {cs : List Char} {afterReturn : Bool}
    (h : afterReturn = true → cs.head? ≠ some '\n') (l : Location) :
    (l.walk afterReturn cs (byteLength cs)).line = l.line + lineEnds cs := by
  fun_induction lineEnds cs generalizing l afterReturn with
  | case1 => rfl
  | case2 cs ih =>
    have hfeed : ('\n' == '\r') = false := rfl
    rw [byteLength_cons, walk_cons, byteLength_cons, walk_cons, hfeed, @ih false nofun]
    show l.line + 1 + lineEnds cs = l.line + (lineEnds cs + 1)
    omega
  | case3 c cs hjoin hc ih =>
    have hrest : (c == '\r') = true → cs.head? ≠ some '\n' := by
      intro hreturn hfeed
      obtain ⟨rest, hcs⟩ := List.head?_eq_some_iff.1 hfeed
      exact hjoin rest (beq_iff_eq.1 hreturn) hcs
    have hnext : (l.next afterReturn c).line = l.line + 1 := by
      unfold next
      rcases hc with rfl | rfl
      · rfl
      · have : ¬ afterReturn = true := fun ha => h ha rfl
        simp [this]
    rw [byteLength_cons, walk_cons, ih hrest, hnext]
    omega
  | case4 c cs hjoin hc ih =>
    rw [not_or] at hc
    have hnext : (l.next afterReturn c).line = l.line := by
      unfold next
      simp [hc]
    rw [byteLength_cons, walk_cons, ih (fun hreturn => absurd (beq_iff_eq.1 hreturn) hc.1), hnext]

theorem line_walk_of_singleLine {cs : List Char} (h : SingleLine cs) (l : Location)
    (afterReturn : Bool) (n : Nat) : (l.walk afterReturn cs n).line = l.line := by
  induction cs generalizing l afterReturn n with
  | nil => rfl
  | cons c cs ih =>
    obtain ⟨hc, hcs⟩ := singleLine_cons.1 h
    have hnext : (l.next afterReturn c).line = l.line := by
      unfold next
      simp [hc]
    unfold walk
    split
    · rfl
    · rw [ih hcs, hnext]

theorem ofPosition_append {xs : List Char} {n : Nat} (h : n ≤ byteLength xs) (ys : List Char) :
    ofPosition (xs ++ ys) n = ofPosition xs n :=
  walk_append_of_le h start false ys

/-- Behind a line break the walk is at the front of the next line. -/
theorem walk_lineBreak {a w b : List Char} (h : LineBreak a w b) (n : Nat) :
    start.walk false (a ++ (w ++ b)) (byteLength a + (byteLength w + n)) =
      (start.down (lineEnds a + 1)).walk false b n := by
  have hline : (start.walk false a (byteLength a)).line = 1 + lineEnds a :=
    @line_walk a false nofun start
  have hdown : start.down (lineEnds a + 1) = ⟨(start.walk false a (byteLength a)).line + 1, 1⟩ := by
    rw [hline]
    simp only [down, start, Location.mk.injEq, and_true]
    omega
  rw [walk_append, walk_append, hdown]
  cases h with
  | feed hlast =>
    have hreturn : a.foldl (fun _ c => c == '\r') false = false := by
      rwa [Bool.eq_false_iff, ne_eq, afterReturn_eq]
    rw [hreturn]
    rfl
  | returnFeed => rfl
  | carriageReturn hhead => exact walk_afterReturn hhead _ true n

/-- A line break is one line end more. -/
theorem lineEnds_lineBreak {a w b : List Char} (h : LineBreak a w b) :
    lineEnds (a ++ w) = lineEnds a + 1 := by
  have hempty : LineBreak a w [] := by
    cases h with
    | feed hlast => exact .feed hlast
    | returnFeed => exact .returnFeed
    | carriageReturn => exact .carriageReturn nofun
  have hdown := walk_lineBreak hempty 0
  rw [List.append_nil, Nat.add_zero, ← byteLength_append, walk_zero] at hdown
  have hline : (start.walk false (a ++ w) (byteLength (a ++ w))).line = 1 + lineEnds (a ++ w) :=
    @line_walk (a ++ w) false nofun start
  rw [hdown] at hline
  simp only [down, start] at hline
  omega

/-- Behind a line break the locations are those of the text there, so many lines further down. -/
theorem ofPosition_lineBreak {a w b : List Char} (h : LineBreak a w b) (n : Nat) :
    ofPosition (a ++ (w ++ b)) (byteLength a + (byteLength w + n)) =
      (ofPosition b n).down (lineEnds a + 1) := by
  unfold ofPosition
  rw [walk_lineBreak h, walk_down]

end Location

end Runbook
