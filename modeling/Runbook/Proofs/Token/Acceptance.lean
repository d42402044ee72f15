import Mathlib
import Runbook.Proofs.Token.Cursor

/-!
# Which scripts can be scanned

`Scannable` says without reference to tokens which texts are scripts: rows of quoted strings, each
closed on its line, and of characters that may stand outside of them. `FaultAt` says what is wrong
at a place where no such row goes on: a control character, or a quote whose line does not close the
string. A script is scanned without a fault just if it is scannable, and otherwise the fault that is
reported is the only one at which a scannable text ends (`tokenize_iff_scannable`).

That the place is the only one rests on quoted strings and single characters being a prefix code: a
row of them that starts with a row of them goes on with one (`Scannable.cancel`).
-/

namespace Runbook

open Text

/-! ## The language of scripts -/

namespace Scan

/-- A character that may stand outside quoted strings: no quote, and a control character only if it
is a tab or belongs to a line end. -/
def IsOutside (c : Char) : Prop :=
  c ≠ '"' ∧ (¬ Lexeme.isControl c ∨ c = '\t' ∨ c = '\r' ∨ c = '\n')

/-- Quoted strings and characters that may stand outside of them, in a row. -/
inductive Scannable : List Char → Prop where
  | nil : Scannable []
  | quoted {w t rest : List Char} :
      Token.QuotedTail w t → Scannable rest → Scannable ('"' :: (w ++ rest))
  | outside {c : Char} {rest : List Char} : IsOutside c → Scannable rest → Scannable (c :: rest)

/-- What follows a quote when a line end or the end of the input comes before the quote that would
close the string. -/
inductive LeftOpen : List Char → Prop where
  | inputEnd : LeftOpen []
  | lineEnd {c : Char} {rest : List Char} : c = '\r' ∨ c = '\n' → LeftOpen (c :: rest)
  | escapedQuote {w : List Char} : LeftOpen w → LeftOpen ('\\' :: '"' :: w)
  | escapedBackslash {w : List Char} : LeftOpen w → LeftOpen ('\\' :: '\\' :: w)
  | backslash {w : List Char} : w.head? ≠ some '"' → w.head? ≠ some '\\' →
      LeftOpen w → LeftOpen ('\\' :: w)
  | plain {c : Char} {w : List Char} : c ≠ '"' → c ≠ '\\' → c ≠ '\r' → c ≠ '\n' →
      LeftOpen w → LeftOpen (c :: w)

/-- What is wrong with a text at its front. -/
inductive FaultAt : ScanFault → List Char → Prop where
  | unterminated {rest : List Char} : LeftOpen rest → FaultAt .unterminated ('"' :: rest)
  | invalid {c : Char} {rest : List Char} : Lexeme.isControl c → c ≠ '\t' → c ≠ '\r' → c ≠ '\n' →
      FaultAt (.invalid c) (c :: rest)

/-- Up to the byte position the script is scannable, and there it has the fault. -/
def Blames (source : String) (fault : ScanFault) (position : Nat) : Prop :=
  ∃ before rest, source.toList = before ++ rest ∧ byteLength before = position ∧
    Scannable before ∧ FaultAt fault rest

/-! ### Rows of strings and characters -/

theorem Scannable.append {u v : List Char} (hu : Scannable u) (hv : Scannable v) :
    Scannable (u ++ v) := by
  induction hu with
  | nil => exact hv
  | quoted hw _ ih =>
    rw [List.cons_append, List.append_assoc]
    exact .quoted hw ih
  | outside hc _ ih => exact .outside hc ih

theorem scannable_of_outside {w : List Char} (h : ∀ c ∈ w, IsOutside c) : Scannable w := by
  induction w with
  | nil => exact .nil
  | cons c w ih =>
    obtain ⟨hc, hw⟩ := List.forall_mem_cons.1 h
    exact .outside hc (ih hw)

/-- Of two strings that a quote opens at the same place neither is longer. -/
theorem quotedTail_unique {v w s t x y : List Char} (hv : Token.QuotedTail v s)
    (hw : Token.QuotedTail w t) (h : v ++ x = w ++ y) : v = w ∧ x = y := by
  have hsize := Lexeme.quotedSize_of_quotedTail hv x
  rw [h, Lexeme.quotedSize_of_quotedTail hw y, Option.some.injEq] at hsize
  exact List.append_inj h hsize.symm

theorem Scannable.outside_inv {c : Char} {rest : List Char} (h : Scannable (c :: rest))
    (hc : c ≠ '"') : IsOutside c ∧ Scannable rest := by
  cases h with
  | quoted => exact absurd rfl hc
  | outside hout hrest => exact ⟨hout, hrest⟩

theorem Scannable.quoted_inv {rest : List Char} (h : Scannable ('"' :: rest)) :
    ∃ w t after, rest = w ++ after ∧ Token.QuotedTail w t ∧ Scannable after := by
  cases h with
  | quoted hw hafter => exact ⟨_, _, _, rfl, hw, hafter⟩
  | outside hout => exact absurd rfl hout.1

/-- A scannable text that begins with a scannable one goes on with one. -/
theorem Scannable.cancel {u v : List Char} (hu : Scannable u) (h : Scannable (u ++ v)) :
    Scannable v := by
  induction hu with
  | nil => exact h
  | quoted hw _ ih =>
    rw [List.cons_append, List.append_assoc] at h
    obtain ⟨w', t', after, heq, hw', hafter⟩ := h.quoted_inv
    obtain ⟨rfl, rfl⟩ := quotedTail_unique hw hw' heq
    exact ih hafter
  | outside hc _ ih => exact ih (h.outside_inv hc.1).2

/-! ### Faults -/

theorem quotedSize_eq_none_iff {cs : List Char} : Lexeme.quotedSize cs = none ↔ LeftOpen cs := by
  constructor
  · intro h
    fun_induction Lexeme.quotedSize cs with
    | case1 => exact .inputEnd
    | case2 => cases h
    | case3 cs ih => exact .escapedQuote (ih (Option.map_eq_none_iff.1 h))
    | case4 cs ih => exact .escapedBackslash (ih (Option.map_eq_none_iff.1 h))
    | case5 c cs hquote hescQuote hescBack hline =>
      simp only [Bool.or_eq_true, beq_iff_eq] at hline
      exact .lineEnd hline.symm
    | case6 c cs hquote hescQuote hescBack hline ih =>
      have hopen := ih (Option.map_eq_none_iff.1 h)
      by_cases hback : c = '\\'
      · rw [hback]
        exact .backslash (Lexeme.head?_ne_of_ne_cons fun rest => hescQuote rest hback)
          (Lexeme.head?_ne_of_ne_cons fun rest => hescBack rest hback) hopen
      · simp only [Bool.or_eq_true, beq_iff_eq, not_or] at hline
        exact .plain hquote hback hline.2 hline.1 hopen
  · intro h
    induction h with
    | inputEnd => rfl
    | lineEnd hc =>
      rcases hc with rfl | rfl <;> exact Lexeme.quotedSize_cons (by decide) (by decide) _
    | escapedQuote _ ih => simp [Lexeme.quotedSize, ih]
    | escapedBackslash _ ih => simp [Lexeme.quotedSize, ih]
    | backslash hquote hback _ ih =>
      rw [Lexeme.quotedSize_backslash hquote hback, ih, Option.map_none]
    | plain hquote hback _ _ _ ih =>
      rw [Lexeme.quotedSize_cons hquote hback, ih, Option.map_none, ite_self]

/-- No scannable text, the empty one apart, starts where there is a fault. -/
theorem FaultAt.eq_nil_of_scannable {fault : ScanFault} {v rest : List Char}
    (h : FaultAt fault (v ++ rest)) (hv : Scannable v) : v = [] := by
  cases hv with
  | nil => rfl
  | @quoted w t after hw _ =>
    rw [List.cons_append, List.append_assoc] at h
    cases h with
    | unterminated hopen =>
      have hsize := quotedSize_eq_none_iff.2 hopen
      rw [Lexeme.quotedSize_of_quotedTail hw] at hsize
      nomatch hsize
    | invalid hcontrol => exact absurd hcontrol (by decide)
  | outside hout _ =>
    obtain ⟨hquote, hplain⟩ := hout
    cases h with
    | unterminated => exact absurd rfl hquote
    | invalid hcontrol htab hreturn hfeed =>
      rcases hplain with hnot | heq | heq | heq
      · exact absurd hcontrol hnot
      · exact absurd heq htab
      · exact absurd heq hreturn
      · exact absurd heq hfeed

theorem FaultAt.unique {fault fault' : ScanFault} {rest : List Char} (h : FaultAt fault rest)
    (h' : FaultAt fault' rest) : fault = fault' := by
  cases h with
  | unterminated =>
    cases h' with
    | unterminated => rfl
    | invalid hcontrol => exact absurd hcontrol (by decide)
  | invalid hcontrol =>
    cases h' with
    | unterminated => exact absurd hcontrol (by decide)
    | invalid => rfl

/-- Behind a scannable text with a fault after it no longer one is scannable. -/
theorem fault_unique {fault fault' : ScanFault} {a v rest : List Char} (ha : Scannable a)
    (hv : Scannable (a ++ v)) (h : FaultAt fault (v ++ rest)) (h' : FaultAt fault' rest) :
    v = [] ∧ fault = fault' := by
  obtain rfl := h.eq_nil_of_scannable (ha.cancel hv)
  exact ⟨rfl, h.unique h'⟩

theorem Blames.not_scannable {source : String} {fault : ScanFault} {position : Nat}
    (h : Blames source fault position) : ¬ Scannable source.toList := by
  obtain ⟨before, rest, hsource, -, hbefore, hfault⟩ := h
  intro hall
  rw [hsource] at hall
  have hfront : FaultAt fault (rest ++ []) := by rwa [List.append_nil]
  obtain rfl := hfront.eq_nil_of_scannable (hbefore.cancel hall)
  nomatch hfault

/-- A script is blamed at one place only, and for one fault. -/
theorem Blames.unique {source : String} {fault fault' : ScanFault} {p q : Nat}
    (h : Blames source fault p) (h' : Blames source fault' q) : fault = fault' ∧ p = q := by
  obtain ⟨a, x, hsource, rfl, ha, hx⟩ := h
  obtain ⟨b, y, hsource', rfl, hb, hy⟩ := h'
  rw [hsource] at hsource'
  rcases List.append_eq_append_iff.1 hsource' with ⟨v, rfl, rfl⟩ | ⟨v, rfl, rfl⟩
  · obtain ⟨rfl, hfault⟩ := fault_unique ha hb hx hy
    exact ⟨hfault, by rw [List.append_nil]⟩
  · obtain ⟨rfl, hfault⟩ := fault_unique hb ha hy hx
    exact ⟨hfault.symm, by rw [List.append_nil]⟩

end Scan

/-! ## Spellings are scannable -/

namespace Token

open Scan

theorem bounds_of_isWordPart {c : Char} (h : Lexeme.isWordPart c) :
    48 ≤ c.toNat ∧ c.toNat < 127 := by
  have hrange {lo hi : Char} (hc : c.val ≥ lo.val ∧ c.val ≤ hi.val) :
      lo.toNat ≤ c.toNat ∧ c.toNat ≤ hi.toNat :=
    ⟨UInt32.le_iff_toNat_le.1 hc.1, UInt32.le_iff_toNat_le.1 hc.2⟩
  have h0 : '0'.toNat = 48 := rfl
  have h9 : '9'.toNat = 57 := rfl
  have hA : 'A'.toNat = 65 := rfl
  have hZ : 'Z'.toNat = 90 := rfl
  have ha : 'a'.toNat = 97 := rfl
  have hz : 'z'.toNat = 122 := rfl
  simp only [Lexeme.isWordPart, Char.isAlphanum, Char.isAlpha, Char.isUpper, Char.isLower,
    Char.isDigit, Bool.or_eq_true, Bool.and_eq_true, decide_eq_true_eq, beq_iff_eq] at h
  rcases h with ((h | h) | h) | rfl
  · have := hrange h
    omega
  · have := hrange h
    omega
  · have := hrange h
    omega
  · decide

theorem isOutside_of_isWordPart {c : Char} (h : Lexeme.isWordPart c) : IsOutside c := by
  have hbounds := bounds_of_isWordPart h
  constructor
  · rintro rfl
    exact absurd hbounds.1 (by decide)
  · left
    simp only [Lexeme.isControl, Bool.or_eq_true, Bool.and_eq_true, decide_eq_true_eq]
    omega

theorem isWordPart_of_isDigit {c : Char} (h : c.isDigit) : Lexeme.isWordPart c := by
  simp [Lexeme.isWordPart, Char.isAlphanum, h]

theorem IsDigits.scannable {w : List Char} (h : IsDigits w) : Scannable w :=
  scannable_of_outside fun c hc => isOutside_of_isWordPart (isWordPart_of_isDigit (h.2 c hc))

theorem IsIdentifier.scannable {w : List Char} (h : IsIdentifier w) : Scannable w :=
  scannable_of_outside fun c hc => isOutside_of_isWordPart (h.isWordPart c hc)

theorem Spells.scannable {k : Kind} {w t : List Char} (h : Spells k w t) : Scannable w := by
  have hspace : IsOutside ' ' := ⟨by decide, .inl (by decide)⟩
  have htab : IsOutside '\t' := ⟨by decide, .inr (.inl rfl)⟩
  have hreturn : IsOutside '\r' := ⟨by decide, .inr (.inr (.inl rfl))⟩
  have hfeed : IsOutside '\n' := ⟨by decide, .inr (.inr (.inr rfl))⟩
  have hdollar : IsOutside '$' := ⟨by decide, .inl (by decide)⟩
  have hpoint : IsOutside '.' := ⟨by decide, .inl (by decide)⟩
  cases h with
  | blank _ hall =>
    refine scannable_of_outside fun c hc => ?_
    rcases hall c hc with rfl | rfl
    · exact hspace
    · exact htab
  | returnFeed => exact .outside hreturn (.outside hfeed .nil)
  | lineFeed => exact .outside hfeed .nil
  | carriageReturn => exact .outside hreturn .nil
  | quoted hw => simpa using Scannable.quoted hw .nil
  | variableName hw => exact .outside hdollar hw.scannable
  | whole hw => exact hw.scannable
  | decimal hv hw => exact hv.scannable.append (.outside hpoint hw.scannable)
  | word hw => exact hw.scannable
  | symbol hcontrol _ hquote => exact .outside ⟨hquote, .inl hcontrol⟩ .nil

end Token

/-! ## Scanning accepts the language -/

namespace Lexeme

open Scan

theorem scannable_joined {ls : List Lexeme} (h : ∀ l ∈ ls, Scannable l.written) :
    Scannable (joined ls) := by
  induction ls with
  | nil => exact .nil
  | cons l ls ih =>
    obtain ⟨hl, hls⟩ := List.forall_mem_cons.1 h
    exact hl.append (ih hls)

theorem scannable_joined_split (cs : List Char) : Scannable (joined (split cs).1) :=
  scannable_joined fun _ hl => (spells_of_mem_split hl).scannable

/-- Where measuring fails, the text has that fault. -/
theorem faultAt_of_measure {c : Char} {cs : List Char} {fault : ScanFault}
    (h : Lexeme.measure c cs = .error fault) : FaultAt fault (c :: cs) := by
  unfold Lexeme.measure at h
  split at h
  · nomatch h
  split at h
  · nomatch h
  split at h
  · nomatch h
  rename_i hspace hfeed hreturn
  rw [isSpace_iff, not_or] at hspace
  rw [beq_iff_eq] at hfeed hreturn
  split at h
  · rename_i hquote
    split at h
    · nomatch h
    · rename_i hsize
      obtain rfl := Except.error.inj h
      rw [beq_iff_eq.1 hquote]
      exact .unterminated (quotedSize_eq_none_iff.1 hsize)
  split at h
  · nomatch h
  split at h
  · nomatch h
  split at h
  · nomatch h
  split at h
  · rename_i hcontrol
    obtain rfl := Except.error.inj h
    exact .invalid hcontrol hspace.2 hreturn hfeed
  · nomatch h

/-- A text is split without a fault, or the text behind its lexemes has the fault. -/
theorem split_cases (cs : List Char) :
    ((split cs).2 = none ∧ Scannable cs) ∨
      ∃ fault rest, (split cs).2 = some fault ∧ cs = joined (split cs).1 ++ rest ∧
        FaultAt fault rest := by
  have hfront := scannable_joined_split cs
  obtain ⟨rest, hcs, hrest⟩ := exists_rest cs
  rcases eq_nil_or_of_split hrest with ⟨rfl, hnone⟩ | ⟨c, tail, fault, rfl, hm, hsome⟩
  · rw [List.append_nil] at hcs
    rw [← hcs] at hfront
    exact .inl ⟨hnone, hfront⟩
  · exact .inr ⟨fault, c :: tail, hsome, hcs, faultAt_of_measure hm⟩

/-- A text is split up to the fault that is to blame. -/
theorem split_of_blames {source : String} {fault : ScanFault} {position : Nat}
    (h : Blames source fault position) :
    (split source.toList).2 = some fault ∧
      byteLength (joined (split source.toList).1) = position := by
  rcases split_cases source.toList with ⟨-, hall⟩ | ⟨fault', rest, hsome, hrest, hfault⟩
  · exact absurd hall h.not_scannable
  · have hblames : Blames source fault' (byteLength (joined (split source.toList).1)) :=
      ⟨_, rest, hrest, rfl, scannable_joined_split _, hfault⟩
    obtain ⟨rfl, rfl⟩ := h.unique hblames
    exact ⟨hsome, rfl⟩

theorem exists_blames_of_not_scannable {source : String} (h : ¬ Scannable source.toList) :
    ∃ fault position, Blames source fault position := by
  rcases split_cases source.toList with ⟨-, hall⟩ | ⟨fault, rest, -, hrest, hfault⟩
  · exact absurd hall h
  · exact ⟨fault, _, _, rest, hrest, rfl, scannable_joined_split _, hfault⟩

theorem split_of_scannable {cs : List Char} (h : Scannable cs) : (split cs).2 = none := by
  rcases split_cases cs with ⟨hnone, -⟩ | ⟨fault, rest, -, hrest, hfault⟩
  · exact hnone
  · have hblames : Blames (String.ofList cs) fault (byteLength (joined (split cs).1)) :=
      ⟨_, rest, by rwa [String.toList_ofList], rfl, scannable_joined_split cs, hfault⟩
    rw [← String.toList_ofList (l := cs)] at h
    exact absurd h hblames.not_scannable

end Lexeme

/-- A script is scanned and scannable, or it has a fault that is to blame. -/
theorem tokenize_cases (source : String) :
    (∃ tokens, tokenize source = .ok tokens ∧ Scan.Scannable source.toList) ∨
      ∃ e, tokenize source = .error e ∧ Scan.Blames source e.fault e.position := by
  rw [tokenize_eq]
  unfold Scan.ofString Scan.toExcept
  rcases hsplit : Lexeme.split source.toList with ⟨ls, fault⟩
  have hfront := Lexeme.scannable_joined_split source.toList
  rcases Lexeme.split_cases source.toList with ⟨hnone, hall⟩ | ⟨fault', rest, hsome, hrest, hfault⟩
  · rw [hsplit] at hnone
    obtain rfl : fault = none := hnone
    rw [Scan.ofChars_of_none hsplit]
    exact .inl ⟨_, rfl, hall⟩
  · rw [hsplit] at hsome hrest hfront
    obtain rfl : fault = some fault' := hsome
    rw [Scan.ofChars_of_some hsplit]
    exact .inr ⟨_, rfl, _, rest, hrest, rfl, hfront, hfault⟩

/-- A script is scanned just if it is scannable. The fault of any other script stands at the byte
position up to which the script is scannable and at which the fault is, and there is no other such
position or fault. -/
theorem tokenize_iff_scannable (source : String) :
    ((∃ tokens, tokenize source = .ok tokens) ↔ Scan.Scannable source.toList) ∧
    ∀ e, tokenize source = .error e →
      Scan.Blames source e.fault e.position ∧
        ∀ fault position, Scan.Blames source fault position →
          fault = e.fault ∧ position = e.position := by
  rcases tokenize_cases source with ⟨tokens, htokens, hall⟩ | ⟨e, he, hblames⟩
  · refine ⟨iff_of_true ⟨tokens, htokens⟩ hall, fun e he => ?_⟩
    rw [htokens] at he
    nomatch he
  · refine ⟨iff_of_false ?_ hblames.not_scannable, fun e' he' => ?_⟩
    · rintro ⟨tokens, htokens⟩
      rw [he] at htokens
      nomatch htokens
    · obtain rfl := Except.error.inj (he.symm.trans he')
      exact ⟨hblames, fun fault position h => h.unique hblames⟩

/-- The backslash takes the second quote, so the string is left open; the tab in it is no fault. -/
theorem tokenize_iff_scannable_open :
    let source := "Echo \"a\\\"\tb"
    tokenize source = .error ⟨.unterminated, 5, ⟨1, 6⟩⟩ ∧ ¬ Scan.Scannable source.toList ∧
      Scan.Blames source .unterminated 5 ∧
      ∀ fault position, Scan.Blames source fault position →
        fault = .unterminated ∧ position = 5 := by
  intro source
  have herror : tokenize source = .error ⟨.unterminated, 5, ⟨1, 6⟩⟩ := by
    rw [tokenize_eq]
    cbv
  obtain ⟨hiff, hblame⟩ := tokenize_iff_scannable source
  refine ⟨herror, fun hall => ?_, hblame _ herror⟩
  obtain ⟨tokens, htokens⟩ := hiff.2 hall
  rw [herror] at htokens
  cases htokens

end Runbook
