import Runbook.Token.Scan

/-!
# The grammar of tokens

`Token.Spells kind w t` says which texts `w` a token of each kind may have in a script, and what
text `t` the token then stands for; it does not say how a script is cut. `Lexeme.measure` looks at
the characters from a position on and decides on a kind and a size. The two agree:

* what is measured is a spelling of its kind (`spells_of_measure`);
* no spelling of any kind at the same place is longer (`length_le_of_measure`).
-/

namespace Runbook

namespace Token

/-! ## Spellings -/

/-- An ASCII letter or an underscore, then ASCII letters, digits and underscores. -/
def IsIdentifier (w : List Char) : Prop :=
  ∃ c cs, w = c :: cs ∧ Lexeme.isWordStart c ∧ ∀ d ∈ cs, Lexeme.isWordPart d

instance : (w : List Char) → Decidable (IsIdentifier w)
  | [] => isFalse nofun
  | c :: cs =>
    decidable_of_iff (Lexeme.isWordStart c ∧ cs.all Lexeme.isWordPart)
      ⟨fun ⟨hc, hcs⟩ => ⟨c, cs, rfl, hc, List.all_eq_true.1 hcs⟩,
        fun ⟨_, _, heq, hc, hcs⟩ => by cases heq; exact ⟨hc, List.all_eq_true.2 hcs⟩⟩

/-- One or more ASCII digits. -/
def IsDigits (w : List Char) : Prop := w ≠ [] ∧ ∀ c ∈ w, c.isDigit

/-- What follows the opening quote of a quoted string, closing quote included, and the text inside
the quotes. -/
inductive QuotedTail : List Char → List Char → Prop where
  | close : QuotedTail ['"'] []
  | escapedQuote {w t : List Char} : QuotedTail w t → QuotedTail ('\\' :: '"' :: w) ('"' :: t)
  | escapedBackslash {w t : List Char} :
      QuotedTail w t → QuotedTail ('\\' :: '\\' :: w) ('\\' :: t)
  | backslash {c : Char} {w t : List Char} : c ≠ '"' → c ≠ '\\' →
      QuotedTail (c :: w) t → QuotedTail ('\\' :: c :: w) ('\\' :: t)
  | plain {c : Char} {w t : List Char} : c ≠ '"' → c ≠ '\\' → c ≠ '\r' → c ≠ '\n' →
      QuotedTail w t → QuotedTail (c :: w) (c :: t)

/-- A text that a token of the kind may have in a script, and the text that it stands for. The end
of the input has no text in a script. -/
inductive Spells : Kind → List Char → List Char → Prop where
  | blank {w : List Char} : w ≠ [] → (∀ c ∈ w, c = ' ' ∨ c = '\t') → Spells .blank w w
  | returnFeed : Spells .lineEnd ['\r', '\n'] ['\r', '\n']
  | lineFeed : Spells .lineEnd ['\n'] ['\n']
  | carriageReturn : Spells .lineEnd ['\r'] ['\r']
  | quoted {w t : List Char} : QuotedTail w t → Spells .quoted ('"' :: w) t
  | variableName {w : List Char} : IsIdentifier w → Spells .variable ('$' :: w) w
  | whole {w : List Char} : IsDigits w → Spells .number w w
  | decimal {v w : List Char} : IsDigits v → IsDigits w →
      Spells .number (v ++ '.' :: w) (v ++ '.' :: w)
  | word {w : List Char} : IsIdentifier w → Spells .word w w
  | symbol {c : Char} : ¬ Lexeme.isControl c → c ≠ ' ' → c ≠ '"' → c ≠ '_' → ¬ c.isAlpha →
      ¬ c.isDigit → Spells .symbol [c] [c]

theorem Spells.ne_nil {k : Kind} {w t : List Char} (h : Spells k w t) : w ≠ [] := by
  cases h with
  | blank hne => exact hne
  | whole hw => exact hw.1
  | word hw =>
    obtain ⟨c, cs, rfl, -⟩ := hw
    exact List.cons_ne_nil c cs
  | decimal => simp
  | _ => exact List.cons_ne_nil _ _

theorem Spells.kind_ne_inputEnd {k : Kind} {w t : List Char} (h : Spells k w t) :
    k ≠ .inputEnd := by
  cases h <;> nofun

theorem QuotedTail.ne_nil {w t : List Char} (h : QuotedTail w t) : w ≠ [] := by
  cases h <;> exact List.cons_ne_nil _ _

theorem QuotedTail.backslash_cons {w t : List Char} (h : QuotedTail w t)
    (hquote : w.head? ≠ some '"') (hback : w.head? ≠ some '\\') :
    QuotedTail ('\\' :: w) ('\\' :: t) := by
  obtain ⟨c, w, rfl⟩ := List.exists_cons_of_ne_nil h.ne_nil
  exact .backslash (fun hc => hquote (congrArg some hc)) (fun hc => hback (congrArg some hc)) h

theorem unescape_backslash {cs : List Char} (hquote : cs.head? ≠ some '"')
    (hback : cs.head? ≠ some '\\') : unescape ('\\' :: cs) = '\\' :: unescape cs := by
  rw [unescape.eq_3]
  · rintro _ - rfl
    exact hquote rfl
  · rintro _ - rfl
    exact hback rfl

theorem head?_dropLast_ne {c d : Char} (hc : c ≠ d) (w : List Char) :
    (c :: w).dropLast.head? ≠ some d := by
  cases w with
  | nil => nofun
  | cons e w =>
    rw [List.dropLast_cons_of_ne_nil (List.cons_ne_nil e w), List.head?_cons]
    exact fun h => hc (Option.some.inj h)

/-- The text of a quoted string is what is left between the quotes once the escapes are undone. -/
theorem QuotedTail.unescape_dropLast {w t : List Char} (h : QuotedTail w t) :
    unescape w.dropLast = t := by
  induction h with
  | close => rfl
  | escapedQuote h ih =>
    rw [List.dropLast_cons_of_ne_nil (List.cons_ne_nil _ _), List.dropLast_cons_of_ne_nil h.ne_nil,
      unescape, ih]
  | escapedBackslash h ih =>
    rw [List.dropLast_cons_of_ne_nil (List.cons_ne_nil _ _), List.dropLast_cons_of_ne_nil h.ne_nil,
      unescape, ih]
  | backslash hquote hback h ih =>
    rw [List.dropLast_cons_of_ne_nil h.ne_nil,
      unescape_backslash (head?_dropLast_ne hquote _) (head?_dropLast_ne hback _), ih]
  | plain hquote hback hcr hlf h ih =>
    rw [List.dropLast_cons_of_ne_nil h.ne_nil, unescape_cons hback, ih]

end Token

namespace Lexeme

open Token

/-! ## Runs and numbers -/

theorem take_run (p : Char → Bool) (cs : List Char) : cs.take (run p cs) = cs.takeWhile p :=
  (List.prefix_iff_eq_take.1 (List.takeWhile_prefix p)).symm

theorem mem_take_run {p : Char → Bool} {cs : List Char} {c : Char} (h : c ∈ cs.take (run p cs)) :
    p c := by
  rw [take_run] at h
  exact List.all_eq_true.1 (List.all_takeWhile) c h

theorem length_le_run {p : Char → Bool} {w : List Char} (hw : ∀ c ∈ w, p c) (rest : List Char) :
    w.length ≤ run p (w ++ rest) := by
  unfold run
  rw [List.takeWhile_append_of_pos hw, List.length_append]
  exact Nat.le_add_right _ _

theorem run_append_of_all {p : Char → Bool} {w rest : List Char} (hw : ∀ c ∈ w, p c)
    (hrest : rest.takeWhile p = []) : run p (w ++ rest) = w.length := by
  unfold run
  rw [List.takeWhile_append_of_pos hw, hrest, List.append_nil]

theorem numberSize_of_point {cs : List Char} {d : Char} {rest : List Char}
    (h : cs.drop (run Char.isDigit cs) = '.' :: d :: rest) (hd : d.isDigit) :
    numberSize cs = run Char.isDigit cs + 2 + run Char.isDigit rest := by
  unfold numberSize
  simp only [h, if_pos hd]

theorem numberSize_of_not_point {cs : List Char}
    (h : ¬ ∃ d rest, cs.drop (run Char.isDigit cs) = '.' :: d :: rest ∧ d.isDigit) :
    numberSize cs = run Char.isDigit cs := by
  unfold numberSize
  dsimp only
  split
  · rename_i d rest hdrop
    rw [if_neg fun hd => h ⟨d, rest, hdrop, hd⟩]
  · rfl

/-! ## Quoted strings -/

theorem quotedSize_backslash {cs : List Char} (hquote : cs.head? ≠ some '"')
    (hback : cs.head? ≠ some '\\') : quotedSize ('\\' :: cs) = (quotedSize cs).map (· + 1) := by
  rw [quotedSize.eq_5]
  · rfl
  · nofun
  · rintro _ - rfl
    exact hquote rfl
  · rintro _ - rfl
    exact hback rfl

theorem quotedSize_cons {c : Char} (hquote : c ≠ '"') (hback : c ≠ '\\') (cs : List Char) :
    quotedSize (c :: cs) = if c == '\n' || c == '\r' then none else (quotedSize cs).map (· + 1) := by
  rw [quotedSize.eq_5]
  · exact hquote
  · rintro _ rfl
    exact absurd rfl hback
  · rintro _ rfl
    exact absurd rfl hback

theorem quotedSize_of_quotedTail {w t : List Char} (h : QuotedTail w t) (rest : List Char) :
    quotedSize (w ++ rest) = some w.length := by
  induction h with
  | close => rfl
  | escapedQuote h ih => simp [quotedSize, ih]
  | escapedBackslash h ih => simp [quotedSize, ih]
  | backslash hquote hback h ih =>
    rw [List.cons_append, quotedSize_backslash (by simpa using hquote) (by simpa using hback), ih]
    rfl
  | plain hquote hback hcr hlf h ih =>
    rw [List.cons_append, quotedSize_cons hquote hback, ih]
    simp [hcr, hlf]

theorem head?_ne_of_ne_cons {cs : List Char} {d : Char} (h : ∀ rest, cs = d :: rest → False) :
    cs.head? ≠ some d := by
  intro hd
  obtain ⟨rest, hcs⟩ := List.head?_eq_some_iff.1 hd
  exact h rest hcs

theorem head?_take_ne {cs : List Char} {d : Char} (h : cs.head? ≠ some d) (n : Nat) :
    (cs.take n).head? ≠ some d := by
  rw [List.head?_take]
  split
  · nofun
  · exact h

theorem quotedTail_of_quotedSize {cs : List Char} {n : Nat} (h : quotedSize cs = some n) :
    ∃ t, QuotedTail (cs.take n) t := by
  fun_induction quotedSize cs generalizing n with
  | case1 => nomatch h
  | case2 cs =>
    obtain rfl : n = 1 := (Option.some.inj h).symm
    exact ⟨[], .close⟩
  | case3 cs ih =>
    obtain ⟨m, hm, rfl⟩ := Option.map_eq_some_iff.1 h
    obtain ⟨t, ht⟩ := ih hm
    exact ⟨_, .escapedQuote ht⟩
  | case4 cs ih =>
    obtain ⟨m, hm, rfl⟩ := Option.map_eq_some_iff.1 h
    obtain ⟨t, ht⟩ := ih hm
    exact ⟨_, .escapedBackslash ht⟩
  | case5 => nomatch h
  | case6 c cs hquote hescQuote hescBack hline ih =>
    obtain ⟨m, hm, rfl⟩ := Option.map_eq_some_iff.1 h
    obtain ⟨t, ht⟩ := ih hm
    by_cases hback : c = '\\'
    · -- No escape starts here, so the next character is neither a quote nor a backslash.
      have hnoQuote := head?_ne_of_ne_cons fun rest => hescQuote rest hback
      have hnoBack := head?_ne_of_ne_cons fun rest => hescBack rest hback
      rw [List.take_succ_cons, hback]
      exact ⟨_, ht.backslash_cons (head?_take_ne hnoQuote m) (head?_take_ne hnoBack m)⟩
    · simp only [Bool.or_eq_true, beq_iff_eq, not_or] at hline
      exact ⟨_, .plain hquote hback hline.2 hline.1 ht⟩

/-! ## What is measured from the first character -/

section Measure

variable {c : Char} {cs : List Char}

theorem isSpace_iff : isSpace c ↔ c = ' ' ∨ c = '\t' := by
  unfold isSpace
  rw [Bool.or_eq_true, beq_iff_eq, beq_iff_eq]

theorem isWordStart_iff : isWordStart c ↔ c.isAlpha ∨ c = '_' := by
  unfold isWordStart
  rw [Bool.or_eq_true, beq_iff_eq]

theorem not_isDigit_of_isWordStart (h : isWordStart c) : c.isDigit = false := by
  have h9 : '9'.val.toNat = 57 := rfl
  have hA : 'A'.val.toNat = 65 := rfl
  have ha : 'a'.val.toNat = 97 := rfl
  have hlarge : 57 < c.val.toNat := by
    rcases isWordStart_iff.1 h with h | rfl
    · rcases (Bool.or_eq_true _ _).mp h with h | h
      · have := UInt32.le_iff_toNat_le.1 (of_decide_eq_true h).1
        omega
      · have := UInt32.le_iff_toNat_le.1 (of_decide_eq_true (Bool.and_eq_true_iff.1 h).1)
        omega
    · decide
  simp only [Char.isDigit, Bool.and_eq_false_iff, decide_eq_false_iff_not, ge_iff_le,
    UInt32.le_iff_toNat_le]
  omega

theorem isWordPart_of_isWordStart (h : isWordStart c) : isWordPart c := by
  unfold isWordPart Char.isAlphanum
  rcases isWordStart_iff.1 h with h | rfl
  · rw [h]
    rfl
  · rfl

theorem measure_of_isSpace (h : isSpace c) : measure c cs = .ok (.blank, run isSpace cs) := by
  unfold measure
  rw [if_pos h]

theorem measure_quote {n : Nat} (h : quotedSize cs = some n) :
    measure '"' cs = .ok (.quoted, n) := by
  unfold measure
  rw [if_neg (by decide), if_neg (by decide), if_neg (by decide),
    if_pos (beq_self_eq_true '"'), h]

theorem measure_dollar (h : cs.head?.any isWordStart) :
    measure '$' cs = .ok (.variable, run isWordPart cs) := by
  show (if true && cs.head?.any isWordStart then _ else _) = _
  rw [Bool.true_and, if_pos h]

/-- A character that opens no blank, line end, quoted string or variable decides by its class. -/
theorem measure_of_class {p : Char → Bool} (hc : p c)
    (hp : [' ', '\t', '\n', '\r', '"', '$'].all (!p ·)) :
    measure c cs =
      if c.isDigit then .ok (.number, numberSize cs)
      else if isWordStart c then .ok (.word, run isWordPart cs)
      else if isControl c then .error (.invalid c)
      else .ok (.symbol, 0) := by
  have hne : ∀ d ∈ [' ', '\t', '\n', '\r', '"', '$'], c ≠ d := by
    rintro d hd rfl
    have := List.all_eq_true.1 hp c hd
    rw [hc] at this
    nomatch this
  simp only [List.mem_cons, List.not_mem_nil, or_false, forall_eq_or_imp, forall_eq] at hne
  obtain ⟨hspace, htab, hfeed, hreturn, hquote, hdollar⟩ := hne
  simp [measure, isSpace, hspace, htab, hfeed, hreturn, hquote, hdollar]

theorem measure_of_isDigit (h : c.isDigit) : measure c cs = .ok (.number, numberSize cs) := by
  rw [measure_of_class h rfl, if_pos h]

theorem measure_of_isWordStart (h : isWordStart c) :
    measure c cs = .ok (.word, run isWordPart cs) := by
  rw [measure_of_class h rfl, not_isDigit_of_isWordStart h, if_neg Bool.false_ne_true, if_pos h]

end Measure

end Lexeme

namespace Token

open Lexeme

theorem IsIdentifier.isWordPart {w : List Char} (h : IsIdentifier w) :
    ∀ c ∈ w, Lexeme.isWordPart c := by
  obtain ⟨c, cs, rfl, hc, hcs⟩ := h
  exact List.forall_mem_cons.2 ⟨isWordPart_of_isWordStart hc, hcs⟩

theorem IsIdentifier.length_le_run {w : List Char} (h : IsIdentifier w) (rest : List Char) :
    w.length ≤ run Lexeme.isWordPart (w ++ rest) :=
  Lexeme.length_le_run h.isWordPart rest

theorem IsIdentifier.head?_any {w : List Char} (h : IsIdentifier w) (rest : List Char) :
    (w ++ rest).head?.any isWordStart := by
  obtain ⟨c, cs, rfl, hc, -⟩ := h
  exact hc

theorem IsDigits.numberSize_append {v w : List Char} (hv : ∀ c ∈ v, c.isDigit) (hw : IsDigits w)
    (rest : List Char) : v.length + 1 + w.length ≤ numberSize (v ++ '.' :: w ++ rest) := by
  obtain ⟨hne, hw⟩ := hw
  obtain ⟨d, w, rfl⟩ := List.exists_cons_of_ne_nil hne
  have hrun : run Char.isDigit (v ++ '.' :: (d :: w) ++ rest) = v.length := by
    rw [List.append_assoc]
    exact run_append_of_all hv rfl
  have hdrop : (v ++ '.' :: (d :: w) ++ rest).drop v.length = '.' :: d :: (w ++ rest) := by
    rw [List.append_assoc, List.drop_left]
    rfl
  rw [numberSize_of_point (hrun ▸ hdrop) (hw d List.mem_cons_self), hrun, List.length_cons]
  have := Lexeme.length_le_run (fun c hc => hw c (List.mem_cons_of_mem d hc)) rest
  omega

end Token

namespace Lexeme

open Token

/-! ## Measuring agrees with the grammar -/

theorem run_le_numberSize (cs : List Char) : run Char.isDigit cs ≤ numberSize cs := by
  by_cases h : ∃ d rest, cs.drop (run Char.isDigit cs) = '.' :: d :: rest ∧ d.isDigit
  · obtain ⟨d, rest, hdrop, hd⟩ := h
    rw [numberSize_of_point hdrop hd]
    omega
  · exact Nat.le_of_eq (numberSize_of_not_point h).symm

theorem take_numberSize {cs : List Char} {d : Char} {rest : List Char}
    (hdrop : cs.drop (run Char.isDigit cs) = '.' :: d :: rest) (hd : d.isDigit) :
    cs.take (numberSize cs) =
      cs.take (run Char.isDigit cs) ++ '.' :: d :: rest.take (run Char.isDigit rest) := by
  rw [numberSize_of_point hdrop hd, Nat.add_assoc, List.take_add, hdrop, Nat.add_comm 2,
    List.take_succ_cons, List.take_succ_cons]

theorem spells_number {c : Char} (hc : c.isDigit) (cs : List Char) :
    Spells .number (c :: cs.take (numberSize cs)) (c :: cs.take (numberSize cs)) := by
  have hwhole : IsDigits (c :: cs.take (run Char.isDigit cs)) := by
    refine ⟨List.cons_ne_nil _ _, ?_⟩
    intro d hd
    rcases List.mem_cons.1 hd with rfl | hd
    · exact hc
    · exact mem_take_run hd
  by_cases h : ∃ d rest, cs.drop (run Char.isDigit cs) = '.' :: d :: rest ∧ d.isDigit
  · obtain ⟨d, rest, hdrop, hd⟩ := h
    have hpart : IsDigits (d :: rest.take (run Char.isDigit rest)) := by
      refine ⟨List.cons_ne_nil _ _, ?_⟩
      intro e he
      rcases List.mem_cons.1 he with rfl | he
      · exact hd
      · exact mem_take_run he
    rw [take_numberSize hdrop hd, ← List.cons_append]
    exact .decimal hwhole hpart
  · rw [numberSize_of_not_point h]
    exact .whole hwhole

theorem spells_quoted {cs : List Char} {n : Nat} (h : quotedSize cs = some n) :
    Spells .quoted ('"' :: cs.take n) (Kind.quoted.meaning ('"' :: cs.take n)) := by
  obtain ⟨t, ht⟩ := quotedTail_of_quotedSize h
  show Spells .quoted ('"' :: cs.take n) (unescape (cs.take n).dropLast)
  rw [ht.unescape_dropLast]
  exact .quoted ht

theorem isIdentifier_of_isWordStart {c : Char} (hc : isWordStart c) (cs : List Char) :
    IsIdentifier (c :: cs.take (run isWordPart cs)) :=
  ⟨c, _, rfl, hc, fun _ hd => mem_take_run hd⟩

theorem isIdentifier_of_head? {cs : List Char} (h : cs.head?.any isWordStart) :
    IsIdentifier (cs.take (run isWordPart cs)) := by
  cases cs with
  | nil => nomatch h
  | cons c cs =>
    have hrun : run isWordPart (c :: cs) = run isWordPart cs + 1 := by
      unfold run
      rw [List.takeWhile_cons_of_pos (isWordPart_of_isWordStart h), List.length_cons]
    rw [hrun, List.take_succ_cons]
    exact isIdentifier_of_isWordStart h cs

theorem spells_blank {c : Char} (hc : isSpace c) (cs : List Char) :
    Spells .blank (c :: cs.take (run isSpace cs)) (c :: cs.take (run isSpace cs)) := by
  refine .blank (List.cons_ne_nil _ _) ?_
  intro d hd
  rcases List.mem_cons.1 hd with rfl | hd
  · exact isSpace_iff.1 hc
  · exact isSpace_iff.1 (mem_take_run hd)

theorem spells_return (cs : List Char) :
    Spells .lineEnd ('\r' :: cs.take (if cs.head? = some '\n' then 1 else 0))
      ('\r' :: cs.take (if cs.head? = some '\n' then 1 else 0)) := by
  by_cases hhead : cs.head? = some '\n'
  · obtain ⟨cs, rfl⟩ := List.head?_eq_some_iff.1 hhead
    exact .returnFeed
  · rw [if_neg hhead]
    exact .carriageReturn

theorem spells_symbol {c : Char} (hspace : ¬ isSpace c) (hquote : c ≠ '"') (hdigit : ¬ c.isDigit)
    (hword : ¬ isWordStart c) (hcontrol : ¬ isControl c) : Spells .symbol [c] [c] := by
  rw [isSpace_iff, not_or] at hspace
  rw [isWordStart_iff, not_or] at hword
  exact .symbol hcontrol hspace.1 hquote hword.2 hword.1 hdigit

/-- What is measured at the front is a spelling of its kind, for the text that the kind gives it. -/
theorem spells_of_measure {c : Char} {cs : List Char} {k : Kind} {n : Nat}
    (h : measure c cs = .ok (k, n)) :
    Spells k (c :: cs.take n) (k.meaning (c :: cs.take n)) := by
  unfold measure at h
  by_cases hspace : isSpace c
  · rw [if_pos hspace] at h
    obtain ⟨rfl, rfl⟩ := Prod.mk.inj (Except.ok.inj h)
    exact spells_blank hspace cs
  rw [if_neg hspace] at h
  by_cases hfeed : c == '\n'
  · rw [if_pos hfeed] at h
    obtain ⟨rfl, rfl⟩ := Prod.mk.inj (Except.ok.inj h)
    rw [beq_iff_eq.1 hfeed]
    exact .lineFeed
  rw [if_neg hfeed] at h
  by_cases hreturn : c == '\r'
  · rw [if_pos hreturn] at h
    obtain ⟨rfl, rfl⟩ := Prod.mk.inj (Except.ok.inj h)
    rw [beq_iff_eq.1 hreturn]
    exact spells_return cs
  rw [if_neg hreturn] at h
  by_cases hquote : c == '"'
  · rw [if_pos hquote] at h
    rw [beq_iff_eq.1 hquote]
    cases hm : quotedSize cs with
    | none =>
      rw [hm] at h
      nomatch h
    | some m =>
      rw [hm] at h
      obtain ⟨rfl, rfl⟩ := Prod.mk.inj (Except.ok.inj h)
      exact spells_quoted hm
  rw [if_neg hquote] at h
  by_cases hdollar : c == '$' && cs.head?.any isWordStart
  · rw [if_pos hdollar] at h
    obtain ⟨rfl, rfl⟩ := Prod.mk.inj (Except.ok.inj h)
    obtain ⟨hc, hhead⟩ := Bool.and_eq_true_iff.1 hdollar
    rw [beq_iff_eq.1 hc]
    exact .variableName (isIdentifier_of_head? hhead)
  rw [if_neg hdollar] at h
  by_cases hdigit : c.isDigit
  · rw [if_pos hdigit] at h
    obtain ⟨rfl, rfl⟩ := Prod.mk.inj (Except.ok.inj h)
    exact spells_number hdigit cs
  rw [if_neg hdigit] at h
  by_cases hword : isWordStart c
  · rw [if_pos hword] at h
    obtain ⟨rfl, rfl⟩ := Prod.mk.inj (Except.ok.inj h)
    exact .word (isIdentifier_of_isWordStart hword cs)
  rw [if_neg hword] at h
  by_cases hcontrol : isControl c
  · rw [if_pos hcontrol] at h
    nomatch h
  · rw [if_neg hcontrol] at h
    obtain ⟨rfl, rfl⟩ := Prod.mk.inj (Except.ok.inj h)
    exact spells_symbol hspace (fun hq => hquote (beq_iff_eq.2 hq)) hdigit hword hcontrol

/-- No spelling of any kind at the front is longer than what is measured there. -/
theorem length_le_of_measure {c : Char} {cs rest w t : List Char} {k kind : Kind} {n : Nat}
    (h : measure c cs = .ok (k, n)) (hw : Spells kind w t) (hfront : w ++ rest = c :: cs) :
    w.length ≤ n + 1 := by
  cases hw with
  | blank hne hall =>
    obtain ⟨d, w, rfl⟩ := List.exists_cons_of_ne_nil hne
    rw [List.cons_append] at hfront
    obtain ⟨rfl, rfl⟩ := List.cons.inj hfront
    rw [measure_of_isSpace (isSpace_iff.2 (hall d List.mem_cons_self))] at h
    obtain ⟨rfl, rfl⟩ := Prod.mk.inj (Except.ok.inj h)
    have := length_le_run (p := isSpace)
      (fun e he => isSpace_iff.2 (hall e (List.mem_cons_of_mem d he))) rest
    rw [List.length_cons]
    omega
  | returnFeed =>
    obtain ⟨rfl, rfl⟩ := List.cons.inj hfront
    obtain ⟨rfl, rfl⟩ := Prod.mk.inj (Except.ok.inj h)
    exact Nat.le_refl 2
  | lineFeed => exact Nat.le_add_left 1 n
  | carriageReturn => exact Nat.le_add_left 1 n
  | quoted hw =>
    rw [List.cons_append] at hfront
    obtain ⟨rfl, rfl⟩ := List.cons.inj hfront
    rw [measure_quote (quotedSize_of_quotedTail hw rest)] at h
    obtain ⟨rfl, rfl⟩ := Prod.mk.inj (Except.ok.inj h)
    exact Nat.le_refl _
  | variableName hw =>
    rw [List.cons_append] at hfront
    obtain ⟨rfl, rfl⟩ := List.cons.inj hfront
    rw [measure_dollar (hw.head?_any rest)] at h
    obtain ⟨rfl, rfl⟩ := Prod.mk.inj (Except.ok.inj h)
    have := hw.length_le_run rest
    rw [List.length_cons]
    omega
  | whole hw =>
    obtain ⟨hne, hw⟩ := hw
    obtain ⟨d, w, rfl⟩ := List.exists_cons_of_ne_nil hne
    rw [List.cons_append] at hfront
    obtain ⟨rfl, rfl⟩ := List.cons.inj hfront
    rw [measure_of_isDigit (hw d List.mem_cons_self)] at h
    obtain ⟨rfl, rfl⟩ := Prod.mk.inj (Except.ok.inj h)
    have := length_le_run (fun e he => hw e (List.mem_cons_of_mem d he)) rest
    have := run_le_numberSize (w ++ rest)
    rw [List.length_cons]
    omega
  | @decimal v w hv hw =>
    obtain ⟨hne, hv⟩ := hv
    obtain ⟨d, v, rfl⟩ := List.exists_cons_of_ne_nil hne
    rw [List.cons_append, List.cons_append] at hfront
    obtain ⟨rfl, rfl⟩ := List.cons.inj hfront
    rw [measure_of_isDigit (hv d List.mem_cons_self)] at h
    obtain ⟨rfl, rfl⟩ := Prod.mk.inj (Except.ok.inj h)
    have := hw.numberSize_append (fun e he => hv e (List.mem_cons_of_mem d he)) rest
    rw [List.length_append, List.length_cons, List.length_cons]
    omega
  | word hw =>
    obtain ⟨d, w, rfl, hd, hw⟩ := hw
    rw [List.cons_append] at hfront
    obtain ⟨rfl, rfl⟩ := List.cons.inj hfront
    rw [measure_of_isWordStart hd] at h
    obtain ⟨rfl, rfl⟩ := Prod.mk.inj (Except.ok.inj h)
    exact Nat.succ_le_succ (length_le_run hw rest)
  | symbol => exact Nat.le_add_left 1 n

end Lexeme

end Runbook
