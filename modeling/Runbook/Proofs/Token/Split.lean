import Runbook.Proofs.Token.Grammar

/-!
# Cutting a script into lexemes

`Lexeme.split` cuts a text from the front on, so it can be taken up at any of its lexemes: the
lexemes before are the text before, and the text after splits into the lexemes after, with the same
fault. `Token.place` gives each lexeme the number of bytes before it.
-/

namespace Runbook

namespace Lexeme

@[simp] theorem joined_cons (l : Lexeme) (ls : List Lexeme) :
    joined (l :: ls) = l.written ++ joined ls := rfl

/-- The first lexeme is what is measured at the front; the others are those of the text after it. -/
theorem split_eq_cons {cs : List Char} {l : Lexeme} {ls : List Lexeme}
    (h : (split cs).1 = l :: ls) :
    ∃ c rest n, cs = c :: rest ∧ measure c rest = .ok (l.kind, n) ∧ l.written = c :: rest.take n ∧
      split (rest.drop n) = (ls, (split cs).2) := by
  cases cs with
  | nil => rw [split_nil] at h; nomatch h
  | cons c rest =>
    cases hm : measure c rest with
    | error fault => rw [split_of_error hm] at h; nomatch h
    | ok found =>
      obtain ⟨kind, n⟩ := found
      rw [split_of_ok hm] at h ⊢
      obtain ⟨rfl, rfl⟩ := List.cons.inj h
      exact ⟨c, rest, n, rfl, hm, rfl, rfl⟩

theorem exists_rest_of_split {cs : List Char} {xs ys : List Lexeme}
    (h : (split cs).1 = xs ++ ys) :
    ∃ rest, cs = joined xs ++ rest ∧ split rest = (ys, (split cs).2) := by
  induction xs generalizing cs with
  | nil => exact ⟨cs, rfl, Prod.ext h rfl⟩
  | cons l xs ih =>
    obtain ⟨c, rest, n, rfl, -, hl, hsplit⟩ := split_eq_cons h
    obtain ⟨tail, htail, hrest⟩ := ih (congrArg Prod.fst hsplit)
    refine ⟨tail, ?_, ?_⟩
    · rw [joined_cons, hl, List.append_assoc, ← htail, List.cons_append, List.take_append_drop]
    · rw [hrest, hsplit]

/-- Blanks in front of another character are a lexeme. -/
theorem split_blanks {w cs : List Char} (hne : w ≠ []) (hw : ∀ c ∈ w, isSpace c)
    (h : cs.head?.any isSpace = false) :
    split (w ++ cs) = (⟨.blank, w⟩ :: (split cs).1, (split cs).2) := by
  obtain ⟨c, w, rfl⟩ := List.exists_cons_of_ne_nil hne
  obtain ⟨hc, hw⟩ := List.forall_mem_cons.1 hw
  have hend : cs.takeWhile isSpace = [] := by
    cases cs with
    | nil => rfl
    | cons d cs => exact List.takeWhile_cons_of_neg (by simpa using h)
  have hm := @measure_of_isSpace c (w ++ cs) hc
  rw [run_append_of_all hw hend] at hm
  rw [List.cons_append, split_of_ok hm, List.take_left, List.drop_left]

/-- Where no lexeme starts, the text ends or has its fault. -/
theorem eq_nil_or_of_split {cs : List Char} {fault : Option ScanFault}
    (h : split cs = ([], fault)) :
    (cs = [] ∧ fault = none) ∨
      ∃ c rest e, cs = c :: rest ∧ measure c rest = .error e ∧ fault = some e := by
  cases cs with
  | nil =>
    rw [split_nil] at h
    exact .inl ⟨rfl, (congrArg Prod.snd h).symm⟩
  | cons c rest =>
    cases hm : measure c rest with
    | error e =>
      rw [split_of_error hm] at h
      exact .inr ⟨c, rest, e, rfl, hm, (congrArg Prod.snd h).symm⟩
    | ok found =>
      obtain ⟨kind, n⟩ := found
      rw [split_of_ok hm] at h
      nomatch h

/-- The lexemes of a text, and what is left of it after them. -/
theorem exists_rest (cs : List Char) :
    ∃ rest, cs = joined (split cs).1 ++ rest ∧ split rest = ([], (split cs).2) :=
  exists_rest_of_split (List.append_nil _).symm

theorem joined_split {cs : List Char} (h : (split cs).2 = none) : joined (split cs).1 = cs := by
  obtain ⟨rest, hcs, hrest⟩ := exists_rest cs
  rcases eq_nil_or_of_split hrest with ⟨rfl, -⟩ | ⟨-, -, e, -, -, he⟩
  · rw [List.append_nil] at hcs
    exact hcs.symm
  · rw [h] at he
    nomatch he

/-- A lexeme has been measured where it stands, with the text from there on in view. -/
theorem measure_of_split {cs : List Char} {xs ys : List Lexeme} {l : Lexeme}
    (h : (split cs).1 = xs ++ l :: ys) :
    ∃ c rest n, cs = joined xs ++ c :: rest ∧ measure c rest = .ok (l.kind, n) ∧
      l.written = c :: rest.take n := by
  obtain ⟨tail, hcs, hsplit⟩ := exists_rest_of_split h
  obtain ⟨c, rest, n, rfl, hm, hl, -⟩ := split_eq_cons (congrArg Prod.fst hsplit)
  exact ⟨c, rest, n, hcs, hm, hl⟩

theorem spells_of_mem_split {cs : List Char} {l : Lexeme} (h : l ∈ (split cs).1) :
    Token.Spells l.kind l.written l.text := by
  obtain ⟨xs, ys, hsplit⟩ := List.append_of_mem h
  obtain ⟨c, rest, n, -, hm, hl⟩ := measure_of_split hsplit
  unfold Lexeme.text
  rw [hl]
  exact spells_of_measure hm

theorem length_le_byteLength_joined {ls : List Lexeme} (h : ∀ l ∈ ls, l.written ≠ []) :
    ls.length ≤ Text.byteLength (joined ls) := by
  induction ls with
  | nil => exact Nat.le_refl 0
  | cons l ls ih =>
    obtain ⟨c, cs, hl⟩ := List.exists_cons_of_ne_nil (h l List.mem_cons_self)
    have := ih fun m hm => h m (List.mem_cons_of_mem l hm)
    have := Text.byteLength_pos c cs
    rw [joined_cons, Text.byteLength_append, hl, List.length_cons]
    omega

theorem byteLength_joined_le (cs : List Char) :
    Text.byteLength (joined (split cs).1) ≤ Text.byteLength cs := by
  obtain ⟨rest, hcs, -⟩ := exists_rest cs
  have := congrArg Text.byteLength hcs
  rw [Text.byteLength_append] at this
  omega

end Lexeme

namespace Token

open Lexeme Text

theorem length_place (position : Nat) (ls : List Lexeme) :
    (place position ls).length = ls.length := by
  induction ls generalizing position with
  | nil => rfl
  | cons l ls ih => exact congrArg (· + 1) (ih _)

theorem joined_append (xs ys : List Lexeme) : joined (xs ++ ys) = joined xs ++ joined ys :=
  List.flatMap_append

theorem place_append (position : Nat) (xs ys : List Lexeme) :
    place position (xs ++ ys) =
      place position xs ++ place (position + byteLength (joined xs)) ys := by
  induction xs generalizing position with
  | nil => rfl
  | cons l xs ih =>
    rw [List.cons_append, place, place, ih, joined_cons, byteLength_append, Nat.add_assoc,
      List.cons_append]

theorem countP_place (p : Kind → Bool) (position : Nat) (ls : List Lexeme) :
    (place position ls).countP (p ·.kind) = ls.countP (p ·.kind) := by
  induction ls generalizing position with
  | nil => rfl
  | cons l ls ih =>
    rw [place, List.countP_cons, List.countP_cons, ih]
    rfl

theorem countP_place_endsLine (position : Nat) (ls : List Lexeme) :
    (place position ls).countP (·.endsLine) = ls.countP (·.kind.endsLine) :=
  countP_place Kind.endsLine position ls

/-- The front of a row of tokens is made of the front of their lexemes. -/
theorem place_eq_append {position : Nat} {ls : List Lexeme} {before after : List Token}
    (h : place position ls = before ++ after) :
    ∃ xs ys, ls = xs ++ ys ∧ before = place position xs ∧
      after = place (position + byteLength (joined xs)) ys := by
  induction before generalizing position ls with
  | nil => exact ⟨[], ls, rfl, rfl, h.symm⟩
  | cons t before ih =>
    cases ls with
    | nil => nomatch h
    | cons l ls =>
      obtain ⟨rfl, htail⟩ := List.cons.inj h
      obtain ⟨xs, ys, rfl, rfl, rfl⟩ := ih htail
      refine ⟨l :: xs, ys, rfl, rfl, ?_⟩
      rw [joined_cons, byteLength_append, Nat.add_assoc]

theorem mem_place {position : Nat} {ls : List Lexeme} {t : Token} (h : t ∈ place position ls) :
    ∃ xs l ys, ls = xs ++ l :: ys ∧ t = ofLexeme (position + byteLength (joined xs)) l := by
  induction ls generalizing position with
  | nil => nomatch h
  | cons l ls ih =>
    rcases List.mem_cons.1 h with rfl | h
    · exact ⟨[], l, ls, rfl, rfl⟩
    · obtain ⟨xs, m, ys, rfl, ht⟩ := ih h
      refine ⟨l :: xs, m, ys, rfl, ?_⟩
      rw [ht, joined_cons, byteLength_append, Nat.add_assoc]

end Token

namespace Scan

open Lexeme Token Text

/-- Without a fault the tokens are the lexemes with their places, and the end of the input. -/
theorem ofChars_of_none {a : List Char} {ls : List Lexeme} (h : split a = (ls, none)) :
    ofChars a = ⟨place 0 ls ++ [ofLexeme (byteLength a) ⟨.inputEnd, []⟩], none⟩ := by
  have hjoined := joined_split (congrArg Prod.snd h)
  unfold ofChars
  rw [h] at hjoined ⊢
  dsimp only at hjoined ⊢
  rw [hjoined]

theorem ofChars_of_some {a : List Char} {ls : List Lexeme} {fault : ScanFault}
    (h : split a = (ls, some fault)) :
    ofChars a =
      ⟨place 0 ls,
        some ⟨fault, byteLength (joined ls), Location.ofPosition a (byteLength (joined ls))⟩⟩ := by
  unfold ofChars
  rw [h]

/-- What follows the tokens of a script: its end, or its first fault. -/
def last (source : List Char) (stop : Nat) : Option ScanFault → Except ScanError Token
  | none => .ok (ofLexeme stop ⟨.inputEnd, []⟩)
  | some fault => .error ⟨fault, stop, Location.ofPosition source stop⟩

/-- The items of a script from a position on, `rest` being the characters there. -/
def itemsFrom (source : List Char) (position : Nat) (rest : List Char) :
    List (Except ScanError Token) :=
  (place position (split rest).1).map .ok ++
    [last source (position + byteLength (joined (split rest).1)) (split rest).2]

theorem items_ofString (source : String) :
    (ofString source).items = itemsFrom source.toList 0 source.toList := by
  unfold ofString ofChars itemsFrom items
  rw [Nat.zero_add]
  dsimp only
  cases (split source.toList).2 with
  | none => simp [last]
  | some fault => simp [last]

theorem length_itemsFrom (source : List Char) (position : Nat) (rest : List Char) :
    (itemsFrom source position rest).length ≤ byteLength rest + 1 := by
  have hjoined := length_le_byteLength_joined
    fun l (hl : l ∈ (split rest).1) => (spells_of_mem_split hl).ne_nil
  have := byteLength_joined_le rest
  unfold itemsFrom
  rw [List.length_append, List.length_map, length_place, List.length_singleton]
  omega

theorem itemsFrom_nil (source : List Char) (position : Nat) :
    itemsFrom source position [] = [.ok (ofLexeme position ⟨.inputEnd, []⟩)] := by
  unfold itemsFrom
  rw [split_nil]
  rfl

theorem itemsFrom_of_error {source : List Char} {position : Nat} {c : Char} {cs : List Char}
    {fault : ScanFault} (h : Lexeme.measure c cs = .error fault) :
    itemsFrom source position (c :: cs) =
      [.error ⟨fault, position, Location.ofPosition source position⟩] := by
  unfold itemsFrom
  rw [split_of_error h]
  rfl

theorem itemsFrom_of_ok {source : List Char} {position : Nat} {c : Char} {cs : List Char}
    {k : Kind} {n : Nat} (h : Lexeme.measure c cs = .ok (k, n)) :
    itemsFrom source position (c :: cs) =
      .ok (ofLexeme position ⟨k, c :: cs.take n⟩) ::
        itemsFrom source (position + byteLength (c :: cs.take n)) (cs.drop n) := by
  unfold itemsFrom
  rw [split_of_ok h]
  simp [place, Nat.add_assoc]

/-- A token other than the end of the input is a lexeme with its place. -/
theorem exists_lexeme_of_mem {source : String} {t : Token} (h : .ok t ∈ (ofString source).items)
    (hkind : t.kind ≠ .inputEnd) :
    ∃ xs l ys, (split source.toList).1 = xs ++ l :: ys ∧
      t = ofLexeme (byteLength (joined xs)) l := by
  rw [items_ofString, itemsFrom, List.mem_append, List.mem_singleton] at h
  rcases h with h | h
  · obtain ⟨t', ht', heq⟩ := List.mem_map.1 h
    obtain rfl := Except.ok.inj heq
    obtain ⟨xs, l, ys, hsplit, ht⟩ := mem_place ht'
    rw [Nat.zero_add] at ht
    exact ⟨xs, l, ys, hsplit, ht⟩
  · cases hfault : (split source.toList).2 with
    | none =>
      rw [hfault] at h
      exact absurd (congrArg Token.kind (Except.ok.inj h)) hkind
    | some fault =>
      rw [hfault] at h
      nomatch h

end Scan

end Runbook
