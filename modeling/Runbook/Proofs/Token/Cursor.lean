import Runbook.Proofs.Token.Split

/-!
# Reading token by token

A `TokenCursor` holds a byte position and reads on from there, while a `Scan` cuts the characters of
the script without looking at bytes. Where `rest` are the characters from the cursor's position on,
one reading finds what `Lexeme.measure` says of `rest`, and all its cuts of the script are at
boundaries (`finds_read`). A cursor started at the front of a script therefore yields the items of
the script's scan, one after the other, and then nothing (`next_skip`).
-/

namespace Runbook

namespace TokenCursor

open Text Lexeme Token

variable {source : String} {position : Nat}

/-! ## Quoted strings -/

section Quoted

variable {text : String} {found : Option (Nat × String)}

theorem finds_quoted_plain {c : Char} {cs : List Char} (hquote : c ≠ '"') (hback : c ≠ '\\')
    (hreturn : c ≠ '\r') (hfeed : c ≠ '\n') (h : RestAt source position (c :: cs))
    (hrest : Reading.Finds source (quoted source (position + c.utf8Size) (text.push c)) found) :
    Reading.Finds source (quoted source position text) found := by
  rw [quoted]
  refine h.finds_char.bind ?_
  simpa [hquote, hback, hfeed, hreturn] using hrest

theorem finds_quoted_escape {d : Char} {cs : List Char} (hd : d = '"' ∨ d = '\\')
    (h : RestAt source position ('\\' :: d :: cs))
    (hrest : Reading.Finds source (quoted source (position + 2) (text.push d)) found) :
    Reading.Finds source (quoted source position text) found := by
  rw [quoted]
  refine h.finds_char.bind ?_
  refine h.next.finds_char.bind ?_
  rcases hd with rfl | rfl
  · exact hrest
  · exact hrest

theorem finds_quoted_backslash {cs : List Char} (hquote : cs.head? ≠ some '"')
    (hback : cs.head? ≠ some '\\') (h : RestAt source position ('\\' :: cs))
    (hrest : Reading.Finds source (quoted source (position + 1) (text.push '\\')) found) :
    Reading.Finds source (quoted source position text) found := by
  rw [quoted]
  refine h.finds_char.bind ?_
  cases cs with
  | nil => exact h.next.finds_none.bind hrest
  | cons d cs =>
    refine h.next.finds_char.bind ?_
    rw [List.head?_cons, ne_eq, Option.some.injEq] at hquote hback
    simpa [hquote, hback] using hrest

theorem finds_quoted_end (h : RestAt source position []) :
    Reading.Finds source (quoted source position text) none := by
  rw [quoted]
  exact h.finds_none.bind (.pure none)

theorem finds_quoted_line {c : Char} {cs : List Char} (hc : c == '\n' || c == '\r')
    (h : RestAt source position (c :: cs)) :
    Reading.Finds source (quoted source position text) none := by
  rw [quoted]
  refine h.finds_char.bind ?_
  simpa only [hc, if_true] using Reading.Finds.pure none

end Quoted

theorem push_append_ofList (text : String) (c : Char) (cs : List Char) :
    text.push c ++ String.ofList cs = text ++ String.ofList (c :: cs) := by
  rw [String.push_eq_append, String.append_assoc, String.ofList_cons]

theorem finds_quoted_of_quotedTail {w t rest : List Char} (hw : QuotedTail w t)
    (h : RestAt source position (w ++ rest)) (text : String) :
    Reading.Finds source (quoted source position text)
      (some (position + byteLength w, text ++ String.ofList t)) := by
  induction hw generalizing position text with
  | close =>
    rw [quoted, String.ofList_nil, String.append_empty]
    exact h.finds_char.bind (.pure _)
  | escapedQuote hw ih =>
    refine finds_quoted_escape (.inl rfl) h ?_
    rw [← push_append_ofList, byteLength_cons, byteLength_cons, ← Nat.add_assoc, ← Nat.add_assoc]
    exact ih h.next.next _
  | escapedBackslash hw ih =>
    refine finds_quoted_escape (.inr rfl) h ?_
    rw [← push_append_ofList, byteLength_cons, byteLength_cons, ← Nat.add_assoc, ← Nat.add_assoc]
    exact ih h.next.next _
  | backslash hquote hback hw ih =>
    refine finds_quoted_backslash (by simpa using hquote) (by simpa using hback) h ?_
    rw [← push_append_ofList, byteLength_cons, ← Nat.add_assoc]
    exact ih h.next _
  | plain hquote hback hreturn hfeed hw ih =>
    refine finds_quoted_plain hquote hback hreturn hfeed h ?_
    rw [← push_append_ofList, byteLength_cons, ← Nat.add_assoc]
    exact ih h.next _

theorem finds_quoted_none {rest : List Char} (hrest : quotedSize rest = none)
    (h : RestAt source position rest) (text : String) :
    Reading.Finds source (quoted source position text) none := by
  fun_induction quotedSize rest generalizing position text with
  | case1 => exact finds_quoted_end h
  | case2 => exact absurd hrest (Option.some_ne_none 1)
  | case3 cs ih =>
    exact finds_quoted_escape (.inl rfl) h (ih (Option.map_eq_none_iff.1 hrest) h.next.next _)
  | case4 cs ih =>
    exact finds_quoted_escape (.inr rfl) h (ih (Option.map_eq_none_iff.1 hrest) h.next.next _)
  | case5 c cs hquote hescQuote hescBack hline => exact finds_quoted_line hline h
  | case6 c cs hquote hescQuote hescBack hline ih =>
    have hnext := ih (Option.map_eq_none_iff.1 hrest) h.next (text.push c)
    by_cases hback : c = '\\'
    · subst hback
      have hnoQuote := head?_ne_of_ne_cons fun rest => hescQuote rest rfl
      have hnoBack := head?_ne_of_ne_cons fun rest => hescBack rest rfl
      exact finds_quoted_backslash hnoQuote hnoBack h hnext
    · simp only [Bool.or_eq_true, beq_iff_eq, not_or] at hline
      exact finds_quoted_plain hquote hback hline.2 hline.1 h hnext

/-! ## Numbers -/

theorem finds_fraction_of_point {d : Char} {rest : List Char} (hd : d.isDigit)
    (h : RestAt source position ('.' :: d :: rest)) :
    Reading.Finds source (fraction source position)
      (position + byteLength ('.' :: d :: rest.take (run Char.isDigit rest))) := by
  have hrun : (d :: rest).takeWhile Char.isDigit = d :: rest.take (run Char.isDigit rest) := by
    rw [List.takeWhile_cons_of_pos hd, take_run]
  have hpart := h.next.finds_passOver Char.isDigit
  rw [hrun, Nat.add_assoc] at hpart
  unfold fraction
  refine (h.finds_startsIn (· == '.')).bind ?_
  refine (h.next.finds_startsIn Char.isDigit).bind ?_
  simp only [List.head?_cons, Option.any_some, hd, if_true]
  exact hpart

theorem finds_fraction_of_not_point {rest : List Char}
    (hrest : ¬ ∃ d cs, rest = '.' :: d :: cs ∧ d.isDigit) (h : RestAt source position rest) :
    Reading.Finds source (fraction source position) position := by
  unfold fraction
  refine (h.finds_startsIn (· == '.')).bind ?_
  cases rest with
  | nil => exact .pure position
  | cons c cs =>
    by_cases hc : c = '.'
    · subst hc
      refine (h.next.finds_startsIn Char.isDigit).bind ?_
      cases cs with
      | nil => exact .pure position
      | cons d cs =>
        have hd : ¬ d.isDigit := fun hd => hrest ⟨d, cs, rfl, hd⟩
        simpa [hd] using Reading.Finds.pure position
    · simpa [hc] using Reading.Finds.pure position

theorem finds_passOver_cons {p : Char → Bool} {c : Char} {cs : List Char} (hc : p c)
    (h : RestAt source position (c :: cs)) :
    Reading.Finds source (passOver p source position)
      (position + byteLength (c :: cs.take (run p cs))) := by
  have := h.finds_passOver p
  rwa [List.takeWhile_cons_of_pos hc, ← take_run] at this

theorem finds_fraction {c : Char} {cs : List Char} (h : RestAt source position (c :: cs)) :
    Reading.Finds source
      (fraction source (position + byteLength (c :: cs.take (run Char.isDigit cs))))
      (position + byteLength (c :: cs.take (numberSize cs))) := by
  have hrest := (h.take (run Char.isDigit cs)).append
  by_cases hpoint : ∃ d rest, cs.drop (run Char.isDigit cs) = '.' :: d :: rest ∧ d.isDigit
  · obtain ⟨d, rest, hdrop, hd⟩ := hpoint
    rw [hdrop] at hrest
    have := finds_fraction_of_point hd hrest
    rwa [Nat.add_assoc, ← byteLength_append, List.cons_append, ← take_numberSize hdrop hd] at this
  · rw [numberSize_of_not_point hpoint]
    exact finds_fraction_of_not_point hpoint hrest

/-! ## One token -/

theorem finds_plain {w rest : List Char} (kind : Kind) (h : RestAt source position (w ++ rest)) :
    Reading.Finds source (plain source kind position (position + byteLength w))
      (.token ⟨kind, String.ofList w, String.ofList w, position⟩ (position + byteLength w)) :=
  h.finds_slice.bind (.pure _)

/-- What a measured first lexeme is to a reader. -/
def Found.ofMeasure (position : Nat) (c : Char) (cs : List Char) :
    Except ScanFault (Kind × Nat) → Found
  | .ok (k, n) =>
    .token (ofLexeme position ⟨k, c :: cs.take n⟩) (position + byteLength (c :: cs.take n))
  | .error e => .fault e

theorem finds_read_end (h : RestAt source position []) :
    Reading.Finds source (read source position) .inputEnd := by
  unfold read
  exact h.finds_none.bind (.pure _)

theorem finds_readQuoted {cs : List Char} {n : Nat} (hn : quotedSize cs = some n)
    (h : RestAt source position ('"' :: cs)) :
    Reading.Finds source (readQuoted source position)
      (.ofMeasure position '"' cs (.ok (.quoted, n))) := by
  obtain ⟨t, ht⟩ := quotedTail_of_quotedSize hn
  have hquoted := finds_quoted_of_quotedTail ht (h.take n).next ""
  rw [String.empty_append, ← ht.unescape_dropLast, Nat.add_assoc] at hquoted
  exact hquoted.bind ((h.take n).finds_slice.bind (.pure _))

theorem finds_readQuoted_none {cs : List Char} (hn : quotedSize cs = none)
    (h : RestAt source position ('"' :: cs)) :
    Reading.Finds source (readQuoted source position) (.fault .unterminated) :=
  (finds_quoted_none hn h.next "").bind (.pure _)

theorem finds_readVariable {cs : List Char} (h : RestAt source position ('$' :: cs)) :
    Reading.Finds source (readVariable source position)
      (.ofMeasure position '$' cs (.ok (.variable, run isWordPart cs))) := by
  have hpass := h.next.finds_passOver isWordPart
  rw [← take_run, Nat.add_assoc] at hpass
  have hname := (h.take (run isWordPart cs)).next.finds_slice
  rw [Nat.add_assoc] at hname
  exact hpass.bind ((h.take _).finds_slice.bind (hname.bind (.pure _)))

theorem finds_read {c : Char} {cs : List Char} (h : RestAt source position (c :: cs)) :
    Reading.Finds source (read source position)
      (.ofMeasure position c cs (Lexeme.measure c cs)) := by
  unfold read Lexeme.measure
  refine h.finds_char.bind ?_
  dsimp only
  by_cases hspace : isSpace c
  · rw [if_pos hspace, if_pos hspace]
    exact (finds_passOver_cons hspace h).bind (finds_plain .blank (h.take _))
  rw [if_neg hspace, if_neg hspace]
  by_cases hfeed : c == '\n'
  · rw [if_pos hfeed, if_pos hfeed]
    obtain rfl := beq_iff_eq.1 hfeed
    exact finds_plain .lineEnd (h.take 0)
  rw [if_neg hfeed, if_neg hfeed]
  by_cases hreturn : c == '\r'
  · rw [if_pos hreturn, if_pos hreturn]
    obtain rfl := beq_iff_eq.1 hreturn
    refine (h.next.finds_startsIn (· == '\n')).bind ?_
    by_cases hhead : cs.head? = some '\n'
    · obtain ⟨cs, rfl⟩ := List.head?_eq_some_iff.1 hhead
      exact finds_plain .lineEnd (h.take 1)
    · have hany : cs.head?.any (· == '\n') = false := by
        cases cs with
        | nil => rfl
        | cons d cs => simpa using hhead
      rw [if_neg hhead, hany]
      exact finds_plain .lineEnd (h.take 0)
  rw [if_neg hreturn, if_neg hreturn]
  by_cases hquote : c == '"'
  · rw [if_pos hquote, if_pos hquote]
    obtain rfl := beq_iff_eq.1 hquote
    cases hn : quotedSize cs with
    | none => exact finds_readQuoted_none hn h
    | some n => exact finds_readQuoted hn h
  rw [if_neg hquote, if_neg hquote]
  by_cases hdollar : c == '$'
  · rw [if_pos hdollar, hdollar, Bool.true_and]
    obtain rfl := beq_iff_eq.1 hdollar
    refine (h.next.finds_startsIn isWordStart).bind ?_
    by_cases hword : cs.head?.any isWordStart
    · rw [if_pos hword, if_pos hword]
      exact finds_readVariable h
    · rw [if_neg hword, if_neg hword]
      exact finds_plain .symbol (h.take 0)
  rw [if_neg hdollar, if_neg (fun hd => hdollar (Bool.and_eq_true_iff.1 hd).1)]
  by_cases hdigit : c.isDigit
  · rw [if_pos hdigit, if_pos hdigit]
    exact (finds_passOver_cons hdigit h).bind
      ((finds_fraction h).bind (finds_plain .number (h.take _)))
  rw [if_neg hdigit, if_neg hdigit]
  by_cases hword : isWordStart c
  · rw [if_pos hword, if_pos hword]
    exact (finds_passOver_cons (isWordPart_of_isWordStart hword) h).bind
      (finds_plain .word (h.take _))
  rw [if_neg hword, if_neg hword]
  by_cases hcontrol : isControl c
  · rw [if_pos hcontrol, if_pos hcontrol]
    exact .pure _
  rw [if_neg hcontrol, if_neg hcontrol]
  exact finds_plain .symbol (h.take 0)

/-! ## The items that a cursor yields -/

/-- The cursor has these items before it: those of the script from its position on, and none once it
has finished. -/
inductive Awaits (source : String) : TokenCursor → List (Except ScanError Token) → Prop where
  | reading {position : Nat} {rest : List Char} : RestAt source position rest →
      Awaits source ⟨source, position, false⟩ (Scan.itemsFrom source.toList position rest)
  | finished {position : Nat} : Awaits source ⟨source, position, true⟩ []

theorem awaits_start (source : String) :
    Awaits source (start source) (Scan.ofString source).items := by
  rw [Scan.items_ofString]
  exact .reading (.zero source)

section Awaits

variable {cursor : TokenCursor} {items : List (Except ScanError Token)}

/-- One step: the first item is found, all cuts are sound, and the other items stay. -/
theorem Awaits.advance (h : Awaits source cursor items) :
    ∃ after, Reading.Finds source cursor.advance (items.head?, after) ∧
      Awaits source after items.tail := by
  cases h with
  | finished => exact ⟨_, .pure _, .finished⟩
  | @reading position rest h =>
    cases rest with
    | nil =>
      rw [Scan.itemsFrom_nil]
      exact ⟨_, (finds_read_end h).bind (.pure _), .finished⟩
    | cons c cs =>
      have hread := finds_read h
      cases hm : Lexeme.measure c cs with
      | error fault =>
        rw [hm] at hread
        rw [Scan.itemsFrom_of_error hm]
        exact ⟨_, hread.bind (.pure _), .finished⟩
      | ok found =>
        obtain ⟨k, n⟩ := found
        rw [hm] at hread
        rw [Scan.itemsFrom_of_ok hm]
        exact ⟨_, hread.bind (.pure _), .reading (h.take n).append⟩

theorem Awaits.next (h : Awaits source cursor items) :
    cursor.next.1 = items.head? ∧ Awaits source cursor.next.2 items.tail := by
  obtain ⟨after, hfinds, hafter⟩ := h.advance
  have hnext : cursor.next = (items.head?, after) := by
    unfold TokenCursor.next
    rw [hfinds.found]
    rfl
  rw [hnext]
  exact ⟨rfl, hafter⟩

/-- The cursor after a number of steps. -/
def skip : Nat → TokenCursor → TokenCursor
  | 0, cursor => cursor
  | n + 1, cursor => skip n cursor.next.2

theorem Awaits.skip (h : Awaits source cursor items) (n : Nat) :
    Awaits source (cursor.skip n) (items.drop n) := by
  induction n generalizing cursor items with
  | zero => exact h
  | succ n ih =>
    have := ih h.next.2
    rwa [List.drop_tail] at this

theorem Awaits.take (h : Awaits source cursor items) (n : Nat) :
    (cursor.take n).1 = items.take n := by
  induction n generalizing cursor items with
  | zero => rfl
  | succ n ih =>
    obtain ⟨hhead, htail⟩ := h.next
    unfold TokenCursor.take
    cases items with
    | nil =>
      rw [show cursor.next = (none, cursor.next.2) from Prod.ext hhead rfl]
      rfl
    | cons item items =>
      rw [show cursor.next = (some item, cursor.next.2) from Prod.ext hhead rfl]
      exact congrArg (item :: ·) (ih htail)

end Awaits

/-- The `n`-th step of a started cursor yields the `n`-th item of the scan, and nothing beyond. -/
theorem next_skip (source : String) (n : Nat) :
    ((start source).skip n).next.1 = (Scan.ofString source).items[n]? := by
  rw [((awaits_start source).skip n).next.1, List.head?_drop]

theorem rest_start (source : String) :
    (start source).rest.1 = (Scan.ofString source).items := by
  have hlength := Scan.length_itemsFrom source.toList 0 source.toList
  rw [← Scan.items_ofString, byteLength_toList] at hlength
  exact ((awaits_start source).take _).trans (List.take_of_length_le hlength)

end TokenCursor

/-! ## All tokens at once -/

theorem mapM_ok (ts : List Token) :
    (ts.map Except.ok).mapM id = (.ok ts : Except ScanError (List Token)) := by
  induction ts with
  | nil => rfl
  | cons t ts ih =>
    rw [List.map_cons, List.mapM_cons, ih]
    rfl

theorem mapM_error (ts : List Token) (e : ScanError) :
    (ts.map Except.ok ++ [Except.error e]).mapM id = (.error e : Except ScanError (List Token)) := by
  induction ts with
  | nil => rfl
  | cons t ts ih =>
    rw [List.map_cons, List.cons_append, List.mapM_cons, ih]
    rfl

/-- The reader and the scan give the same tokens, or the same first fault. -/
theorem tokenize_eq (source : String) : tokenize source = (Scan.ofString source).toExcept := by
  unfold tokenize Scan.toExcept
  rw [TokenCursor.rest_start]
  unfold Scan.items
  cases (Scan.ofString source).error? with
  | none => simpa using mapM_ok _
  | some e => exact mapM_error _ e

end Runbook
