import Runbook.Proofs.Text.LineEnds
import Runbook.Proofs.Token.Split

/-!
# Scanning is local to a line

No token goes beyond its line, so what is measured at a place does not depend on what stands after
the next line end (`measure_append`). A text with a line break in it is therefore scanned line by
line: if a fault stands before the break, the text after it is not looked at, and otherwise the
lexemes before, the line end and the lexemes after follow each other (`split_lineBreak`).

The line ends of a text are its tokens of that kind, as no other token holds one
(`countP_split`).
-/

namespace Runbook

open Text

namespace Token

/-! ## Tokens without a line end -/

theorem QuotedTail.singleLine {w t : List Char} (h : QuotedTail w t) :
    SingleLine w ∧ SingleLine t := by
  induction h with
  | close => simp
  | escapedQuote _ ih => simpa using ih
  | escapedBackslash _ ih => simpa using ih
  | backslash _ _ _ ih => simpa using ih
  | plain _ _ hreturn hfeed _ ih => simpa [hreturn, hfeed] using ih

theorem singleLine_of_all {p : Char → Bool} (hreturn : p '\r' = false) (hfeed : p '\n' = false)
    {w : List Char} (hw : ∀ c ∈ w, p c) : SingleLine w := by
  intro c hc
  have hpc := hw c hc
  constructor
  · rintro rfl
    exact absurd hpc (by simp [hreturn])
  · rintro rfl
    exact absurd hpc (by simp [hfeed])

theorem IsIdentifier.singleLine {w : List Char} (h : IsIdentifier w) : SingleLine w :=
  singleLine_of_all rfl rfl h.isWordPart

theorem IsDigits.singleLine {w : List Char} (h : IsDigits w) : SingleLine w :=
  singleLine_of_all (p := Char.isDigit) rfl rfl h.2

/-- A token that is no line end holds none, neither in its spelling nor in the text that it stands
for. -/
theorem Spells.singleLine {k : Kind} {w t : List Char} (h : Spells k w t) (hk : k ≠ .lineEnd) :
    SingleLine w ∧ SingleLine t := by
  cases h with
  | blank _ hall =>
    have hw : SingleLine w := by
      intro c hc
      rcases hall c hc with rfl | rfl <;> decide
    exact ⟨hw, hw⟩
  | returnFeed | lineFeed | carriageReturn => exact absurd rfl hk
  | quoted hw => simpa using hw.singleLine
  | variableName hw => simpa using hw.singleLine
  | whole hw => exact ⟨hw.singleLine, hw.singleLine⟩
  | decimal hv hw => simp [hv.singleLine, hw.singleLine]
  | word hw => exact ⟨hw.singleLine, hw.singleLine⟩
  | @symbol c hcontrol =>
    have hc : SingleLine [c] :=
      singleLine_of_all (p := (!Lexeme.isControl ·)) rfl rfl (by simpa using hcontrol)
    exact ⟨hc, hc⟩

theorem Spells.isIdentifier_of_variable {w t : List Char} (h : Spells .variable w t) :
    IsIdentifier t := by
  cases h with
  | variableName hw => exact hw

theorem Spells.isIdentifier_of_word {w t : List Char} (h : Spells .word w t) : IsIdentifier t := by
  cases h with
  | word hw => exact hw

theorem Spells.head?_of_lineEnd {w t : List Char} (h : Spells .lineEnd w t) :
    w.head? = some '\n' ∨ w.head? = some '\r' := by
  cases h <;> simp

end Token

namespace Lexeme

open Token

/-! ## Measuring before a line end -/

theorem run_le_length (p : Char → Bool) (cs : List Char) : run p cs ≤ cs.length :=
  (List.takeWhile_sublist p).length_le

theorem measure_return (cs : List Char) :
    Lexeme.measure '\r' cs = .ok (.lineEnd, if cs.head? = some '\n' then 1 else 0) := rfl

section Measure

variable {stop : Char} (hstop : stop = '\r' ∨ stop = '\n')

include hstop

theorem run_append {p : Char → Bool} (hp : p '\r' = false ∧ p '\n' = false) (cs rest : List Char) :
    run p (cs ++ stop :: rest) = run p cs := by
  have hps : p stop = false := by
    rcases hstop with rfl | rfl
    · exact hp.1
    · exact hp.2
  unfold run
  induction cs with
  | nil => simp [hps]
  | cons c cs ih =>
    rw [List.cons_append, List.takeWhile_cons, List.takeWhile_cons]
    split
    · rw [List.length_cons, List.length_cons, ih]
    · rfl

theorem head?_any_append {p : Char → Bool} (hp : p '\r' = false ∧ p '\n' = false)
    (cs rest : List Char) : (cs ++ stop :: rest).head?.any p = cs.head?.any p := by
  cases cs with
  | nil => rcases hstop with rfl | rfl <;> simp [hp]
  | cons c cs => rfl

theorem quotedSize_append (cs rest : List Char) :
    quotedSize (cs ++ stop :: rest) = quotedSize cs := by
  fun_induction quotedSize cs with
  | case1 =>
    rcases hstop with rfl | rfl
    · exact quotedSize_cons (by decide) (by decide) rest
    · exact quotedSize_cons (by decide) (by decide) rest
  | case2 cs => rfl
  | case3 cs ih => simp [quotedSize, ih]
  | case4 cs ih => simp [quotedSize, ih]
  | case5 c cs hquote hescQuote hescBack hline =>
    have hback : c ≠ '\\' := by
      rintro rfl
      exact absurd hline (by decide)
    rw [List.cons_append, quotedSize_cons hquote hback, if_pos hline]
  | case6 c cs hquote hescQuote hescBack hline ih =>
    by_cases hback : c = '\\'
    · -- No escape starts here, and a line end is no second half of one.
      have hhead : ∀ d, stop ≠ d → (∀ tail, cs = d :: tail → False) →
          (cs ++ stop :: rest).head? ≠ some d := by
        intro d hd hcs
        cases cs with
        | nil => simpa using hd
        | cons e cs => exact (head?_ne_of_ne_cons hcs :)
      have hquoteStop : stop ≠ '"' := by rcases hstop with rfl | rfl <;> decide
      have hbackStop : stop ≠ '\\' := by rcases hstop with rfl | rfl <;> decide
      have hnoQuote := hhead '"' hquoteStop fun tail => hescQuote tail hback
      have hnoBack := hhead '\\' hbackStop fun tail => hescBack tail hback
      rw [hback, List.cons_append, quotedSize_backslash hnoQuote hnoBack, ih]
    · rw [List.cons_append, quotedSize_cons hquote hback, if_neg hline, ih]

theorem point_append {cs rest : List Char}
    (h : ∃ d tail, cs ++ stop :: rest = '.' :: d :: tail ∧ d.isDigit) :
    ∃ d tail, cs = '.' :: d :: tail ∧ d.isDigit := by
  obtain ⟨d, tail, hpoint, hd⟩ := h
  match cs with
  | [] =>
    obtain ⟨rfl, -⟩ := List.cons.inj hpoint
    exact absurd hstop (by decide)
  | [e] =>
    obtain ⟨rfl, -⟩ := List.cons.inj (List.cons.inj hpoint).2
    rcases hstop with rfl | rfl <;> exact absurd hd (by decide)
  | e :: f :: cs =>
    obtain ⟨rfl, htail⟩ := List.cons.inj hpoint
    obtain ⟨rfl, -⟩ := List.cons.inj htail
    exact ⟨f, cs, rfl, hd⟩

theorem numberSize_append (cs rest : List Char) :
    numberSize (cs ++ stop :: rest) = numberSize cs := by
  have hrun := run_append hstop (p := Char.isDigit) ⟨rfl, rfl⟩
  have hdrop : (cs ++ stop :: rest).drop (run Char.isDigit (cs ++ stop :: rest)) =
      cs.drop (run Char.isDigit cs) ++ stop :: rest := by
    rw [hrun]
    exact List.drop_append_of_le_length (run_le_length _ cs)
  by_cases h : ∃ d tail, cs.drop (run Char.isDigit cs) = '.' :: d :: tail ∧ d.isDigit
  · obtain ⟨d, tail, hpoint, hd⟩ := h
    rw [hpoint, List.cons_append, List.cons_append] at hdrop
    rw [numberSize_of_point hpoint hd, numberSize_of_point hdrop hd, hrun, hrun]
  · rw [numberSize_of_not_point h, numberSize_of_not_point, hrun]
    rw [hdrop]
    exact fun hpoint => h (point_append hstop hpoint)

/-- What is measured at a place does not depend on what stands after the next line end; only a
carriage return looks beyond itself, for its line feed. -/
theorem measure_append {c : Char} {cs : List Char}
    (hlast : (c :: cs).getLast? = some '\r' → stop ≠ '\n') (rest : List Char) :
    Lexeme.measure c (cs ++ stop :: rest) = Lexeme.measure c cs := by
  by_cases hreturn : c = '\r'
  · have hhead : (cs ++ stop :: rest).head? = some '\n' ↔ cs.head? = some '\n' := by
      cases cs with
      | nil => simpa using hlast (congrArg some hreturn)
      | cons d cs => rfl
    simp only [hreturn, measure_return, hhead]
  · unfold Lexeme.measure
    rw [run_append hstop ⟨rfl, rfl⟩, quotedSize_append hstop, head?_any_append hstop ⟨rfl, rfl⟩,
      numberSize_append hstop, run_append hstop ⟨rfl, rfl⟩]
    simp [hreturn]

end Measure

/-! ## A measured lexeme lies in its text -/

theorem numberSize_le_length (cs : List Char) : numberSize cs ≤ cs.length := by
  have hrun := run_le_length Char.isDigit cs
  by_cases h : ∃ d rest, cs.drop (run Char.isDigit cs) = '.' :: d :: rest ∧ d.isDigit
  · obtain ⟨d, rest, hdrop, hd⟩ := h
    have hlength := congrArg List.length hdrop
    rw [List.length_drop, List.length_cons, List.length_cons] at hlength
    have := run_le_length Char.isDigit rest
    rw [numberSize_of_point hdrop hd]
    omega
  · rw [numberSize_of_not_point h]
    exact hrun

theorem quotedSize_le_length {cs : List Char} {n : Nat} (h : quotedSize cs = some n) :
    n ≤ cs.length := by
  obtain ⟨t, ht⟩ := quotedTail_of_quotedSize h
  have hsize := quotedSize_of_quotedTail ht (cs.drop n)
  rw [List.take_append_drop, h, Option.some.injEq, List.length_take] at hsize
  omega

theorem le_length_of_measure {c : Char} {cs : List Char} {k : Kind} {n : Nat}
    (h : Lexeme.measure c cs = .ok (k, n)) : n ≤ cs.length := by
  unfold Lexeme.measure at h
  repeat' split at h
  all_goals simp only [Except.ok.injEq, Prod.mk.injEq, reduceCtorEq] at h
  all_goals obtain ⟨-, rfl⟩ := h
  · exact run_le_length _ _
  · exact Nat.zero_le _
  · rename_i hhead
    obtain ⟨rest, rfl⟩ := List.head?_eq_some_iff.1 hhead
    exact Nat.le_add_left 1 _
  · exact Nat.zero_le _
  · rename_i hsize
    exact quotedSize_le_length hsize
  · exact run_le_length _ _
  · exact numberSize_le_length _
  · exact run_le_length _ _
  · exact Nat.zero_le _

/-! ## Splitting at a line break -/

theorem getLast?_of_drop {c d : Char} {cs : List Char} {n : Nat}
    (h : (cs.drop n).getLast? = some d) : (c :: cs).getLast? = some d := by
  obtain ⟨init, hinit⟩ := List.getLast?_eq_some_iff.1 h
  refine List.getLast?_eq_some_iff.2 ⟨c :: (cs.take n ++ init), ?_⟩
  rw [List.cons_append, List.append_assoc, ← hinit, List.take_append_drop]

theorem split_append {stop : Char} (hstop : stop = '\r' ∨ stop = '\n') {cs : List Char}
    (hlast : cs.getLast? = some '\r' → stop ≠ '\n') (rest : List Char) :
    split (cs ++ stop :: rest) =
      match (split cs).2 with
      | none => ((split cs).1 ++ (split (stop :: rest)).1, (split (stop :: rest)).2)
      | some _ => split cs := by
  fun_induction split cs with
  | case1 => rfl
  | case2 c cs fault hm =>
    rw [← measure_append hstop hlast rest] at hm
    exact split_of_error hm
  | case3 c cs k n hm ls fault hsplit ih =>
    have hn := le_length_of_measure hm
    have hrest := ih fun h => hlast (getLast?_of_drop h)
    rw [← measure_append hstop hlast rest] at hm
    rw [List.cons_append, split_of_ok hm, List.take_append_of_le_length hn,
      List.drop_append_of_le_length hn, hrest, hsplit]
    cases fault with
    | none => rfl
    | some fault => rfl

theorem split_feed (cs : List Char) :
    split ('\n' :: cs) = (⟨.lineEnd, ['\n']⟩ :: (split cs).1, (split cs).2) := by
  have hm : Lexeme.measure '\n' cs = .ok (.lineEnd, 0) := rfl
  exact split_of_ok hm

theorem split_returnFeed (cs : List Char) :
    split ('\r' :: '\n' :: cs) = (⟨.lineEnd, ['\r', '\n']⟩ :: (split cs).1, (split cs).2) := by
  have hm : Lexeme.measure '\r' ('\n' :: cs) = .ok (.lineEnd, 1) := rfl
  exact split_of_ok hm

theorem split_return {cs : List Char} (h : cs.head? ≠ some '\n') :
    split ('\r' :: cs) = (⟨.lineEnd, ['\r']⟩ :: (split cs).1, (split cs).2) := by
  have hm := measure_return cs
  rw [if_neg h] at hm
  exact split_of_ok hm

/-- A text with a line break is split before it, and behind it unless there is a fault before. -/
theorem split_lineBreak {a w b : List Char} (h : LineBreak a w b) :
    split (a ++ (w ++ b)) =
      match (split a).2 with
      | none => ((split a).1 ++ ⟨.lineEnd, w⟩ :: (split b).1, (split b).2)
      | some _ => split a := by
  cases h with
  | feed hlast =>
    have := split_append (.inr rfl) (fun h => absurd h hlast) b
    rwa [split_feed] at this
  | returnFeed =>
    have := @split_append '\r' (.inl rfl) a (fun _ => by decide) ('\n' :: b)
    rwa [split_returnFeed] at this
  | carriageReturn hhead =>
    have := @split_append '\r' (.inl rfl) a (fun _ => by decide) b
    rwa [split_return hhead] at this

/-- A line end is one of its own in front of what may follow it. -/
theorem lineEnds_lineEnd {c : Char} {cs w : List Char} {n : Nat}
    (h : Lexeme.measure c cs = .ok (.lineEnd, n)) (hw : w <+: cs.drop n) :
    lineEnds (c :: cs.take n ++ w) = lineEnds w + 1 := by
  have hc := (spells_of_measure h).head?_of_lineEnd
  simp only [List.head?_cons, Option.some.injEq] at hc
  rcases hc with rfl | rfl
  · obtain rfl : 0 = n := (Prod.mk.inj (Except.ok.inj h)).2
    rfl
  · rw [measure_return] at h
    obtain rfl := (Prod.mk.inj (Except.ok.inj h)).2
    by_cases hhead : cs.head? = some '\n'
    · obtain ⟨rest, rfl⟩ := List.head?_eq_some_iff.1 hhead
      rfl
    · -- The carriage return stands alone, and so it does before any front of what follows.
      rw [if_neg hhead, List.drop_zero] at hw
      have hfront : w.head? ≠ some '\n' := by
        intro hfeed
        obtain ⟨tail, rfl⟩ := List.head?_eq_some_iff.1 hfeed
        obtain ⟨rest, rfl⟩ := hw
        exact hhead rfl
      rw [if_neg hhead, List.take_zero, List.singleton_append, lineEnds_cons fun _ => hfront,
        if_pos (.inl rfl)]

theorem lineEnds_of_measure {c : Char} {cs : List Char} {n : Nat}
    (h : Lexeme.measure c cs = .ok (.lineEnd, n)) :
    lineEnds (c :: cs) = lineEnds (cs.drop n) + 1 := by
  have := lineEnds_lineEnd h List.prefix_rfl
  rwa [List.cons_append, List.take_append_drop] at this

/-- A text has as many line ends as lexemes of that kind. -/
theorem countP_split {cs : List Char} (h : (split cs).2 = none) :
    (split cs).1.countP (·.kind.endsLine) = lineEnds cs := by
  fun_induction split cs with
  | case1 => rfl
  | case2 c cs fault hm => nomatch h
  | case3 c cs k n hm ls fault hsplit ih =>
    rw [hsplit] at ih
    rw [List.countP_cons, ih h]
    by_cases hk : k = .lineEnd
    · subst hk
      rw [lineEnds_of_measure hm]
      rfl
    · have hspells := spells_of_measure hm
      have hends : k.endsLine = false := by simp [Kind.endsLine, hk, hspells.kind_ne_inputEnd]
      have := (hspells.singleLine hk).1.lineEnds_append (cs.drop n)
      rw [List.cons_append, List.take_append_drop] at this
      simp [hends, this]

/-- A text without a line end has no lexeme that ends a line. -/
theorem endsLine_of_singleLine {cs : List Char} (h : SingleLine cs) {l : Lexeme}
    (hl : l ∈ (split cs).1) : l.kind.endsLine = false := by
  have hspells := spells_of_mem_split hl
  have hkind : l.kind ≠ .lineEnd := by
    intro hk
    obtain ⟨xs, ys, hsplit⟩ := List.append_of_mem hl
    obtain ⟨c, rest, n, hcs, -, hwritten⟩ := measure_of_split hsplit
    have hc : c ≠ '\r' ∧ c ≠ '\n' := h c (by simp [hcs])
    rw [hk] at hspells
    have hhead := hspells.head?_of_lineEnd
    simp [hwritten, hc] at hhead
  simp [Kind.endsLine, hkind, hspells.kind_ne_inputEnd]

end Lexeme

end Runbook
