import Runbook.Text.Location

/-!
# Reading a text by byte positions

A reader that holds a byte position looks at the character that starts there and cuts out what lies
between two positions. Both cut the text, and a cut that does not fall between two characters is an
error in the reader. A `Reading` therefore keeps, beside what it finds, the positions of its cuts;
`Reading.Finds` says that it finds a value and that all its cuts are sound.
-/

namespace Runbook

namespace Text

/-! ## Byte lengths and boundaries -/

theorem byteLength_pos (c : Char) (cs : List Char) : 0 < byteLength (c :: cs) := by
  have := c.utf8Size_pos
  rw [byteLength_cons]
  omega

@[simp] theorem utf8ByteSize_ofList (cs : List Char) :
    (String.ofList cs).utf8ByteSize = byteLength cs := by
  rw [← String.size_toByteArray, String.toByteArray_ofList]
  induction cs with
  | nil => rfl
  | cons c cs ih =>
    rw [List.utf8Encode_cons, ByteArray.size_append, ih, List.utf8Encode_singleton,
      List.size_toByteArray, String.length_utf8EncodeChar, byteLength_cons]

@[simp] theorem byteLength_toList (source : String) :
    byteLength source.toList = source.utf8ByteSize := by
  rw [← utf8ByteSize_ofList, String.ofList_toList]

/-- The position is an end of the text or lies between two of its characters. -/
abbrev IsBoundary (source : String) (position : Nat) : Prop :=
  (⟨position⟩ : String.Pos.Raw).IsValid source

/-- The position is a boundary, and `rest` is what follows it. -/
def RestAt (source : String) (position : Nat) (rest : List Char) : Prop :=
  ∃ before, source.toList = before ++ rest ∧ byteLength before = position

namespace RestAt

variable {source : String} {position : Nat} {rest : List Char}

theorem zero (source : String) : RestAt source 0 source.toList := ⟨[], rfl, rfl⟩

theorem append {w : List Char} (h : RestAt source position (w ++ rest)) :
    RestAt source (position + byteLength w) rest := by
  obtain ⟨before, hsource, rfl⟩ := h
  exact ⟨before ++ w, by rw [hsource, List.append_assoc], byteLength_append before w⟩

theorem next {c : Char} (h : RestAt source position (c :: rest)) :
    RestAt source (position + c.utf8Size) rest :=
  append (w := [c]) h

theorem take {c : Char} {cs : List Char} (h : RestAt source position (c :: cs)) (n : Nat) :
    RestAt source position (c :: cs.take n ++ cs.drop n) := by
  rw [List.cons_append, List.take_append_drop]
  exact h

end RestAt

theorem isBoundary_iff {source : String} {position : Nat} :
    IsBoundary source position ↔ ∃ rest, RestAt source position rest := by
  refine String.Pos.Raw.isValid_iff_exists_append.trans ?_
  constructor
  · rintro ⟨s, t, rfl, hs⟩
    refine ⟨t.toList, s.toList, String.toList_append, ?_⟩
    rw [byteLength_toList]
    exact (congrArg String.Pos.Raw.byteIdx hs).symm
  · rintro ⟨rest, before, hsource, rfl⟩
    refine ⟨String.ofList before, String.ofList rest, ?_, ?_⟩
    · rw [← String.ofList_append, ← hsource, String.ofList_toList]
    · rw [String.rawEndPos, utf8ByteSize_ofList]

theorem RestAt.isBoundary {source : String} {position : Nat} {rest : List Char}
    (h : RestAt source position rest) : IsBoundary source position :=
  isBoundary_iff.2 ⟨rest, h⟩

theorem splits_of_toList {source : String} {before rest : List Char}
    (h : source.toList = before ++ rest) (hp : IsBoundary source (byteLength before)) :
    (source.pos ⟨byteLength before⟩ hp).Splits (String.ofList before) (String.ofList rest) := by
  constructor
  · rw [← String.ofList_append, ← h, String.ofList_toList]
  · rw [String.offset_pos, String.rawEndPos, utf8ByteSize_ofList]

/-! ## Characters and pieces -/

/-- The character that starts at a byte position; there is none at the end of the text, beyond it,
and inside a character. -/
def char? (source : String) (position : Nat) : Option Char :=
  if h : IsBoundary source position then (source.sliceFrom (source.pos ⟨position⟩ h)).front?
  else none

theorem RestAt.char? {source : String} {position : Nat} {rest : List Char}
    (h : RestAt source position rest) : char? source position = rest.head? := by
  have hp := h.isBoundary
  obtain ⟨before, hsource, rfl⟩ := h
  unfold Text.char?
  rw [dif_pos hp, String.Slice.front?_eq, (splits_of_toList hsource hp).copy_sliceFrom_eq,
    String.toList_ofList]

theorem lt_of_char? {source : String} {position : Nat} {c : Char}
    (h : char? source position = some c) : position < source.utf8ByteSize := by
  by_cases hp : IsBoundary source position
  · obtain ⟨rest, hrest⟩ := isBoundary_iff.1 hp
    rw [hrest.char?] at h
    obtain ⟨cs, rfl⟩ := List.head?_eq_some_iff.1 h
    obtain ⟨before, hsource, rfl⟩ := hrest
    have := byteLength_pos c cs
    rw [← byteLength_toList, hsource, byteLength_append]
    omega
  · unfold char? at h
    rw [dif_neg hp] at h
    nomatch h

/-- What lies between two byte positions, both of them boundaries. -/
def between? (source : String) (start stop : Nat) : Option String :=
  if h : IsBoundary source start ∧ IsBoundary source stop ∧ start ≤ stop then
    some (source.slice (source.pos ⟨start⟩ h.1) (source.pos ⟨stop⟩ h.2.1) h.2.2).copy
  else none

theorem RestAt.between? {source : String} {start : Nat} {middle rest : List Char}
    (h : RestAt source start (middle ++ rest)) :
    between? source start (start + byteLength middle) = some (String.ofList middle) := by
  have hstart := h.isBoundary
  have hstop := h.append.isBoundary
  obtain ⟨before, hsource, rfl⟩ := h
  rw [← byteLength_append] at hstop ⊢
  have hsource' : source.toList = before ++ middle ++ rest := by rw [hsource, List.append_assoc]
  have hsplits := splits_of_toList hsource hstart
  have hsplits' := splits_of_toList hsource' hstop
  rw [String.ofList_append] at hsplits hsplits'
  have hslice := String.copy_slice_eq_iff_splits.2 ⟨_, _, hsplits, hsplits'⟩
  unfold Text.between?
  rw [dif_pos ⟨hstart, hstop, hslice.choose⟩, hslice.choose_spec]

/-! ## Readings -/

/-- What a reader finds in a text, nothing if it cuts something out at a wrong position, and the byte
positions at which it cuts the text. -/
structure Reading (α : Type) where
  found? : Option α
  cuts : List Nat

namespace Reading

variable {α β : Type} {source : String}

/-- Finds a value without looking at the text. -/
def pure (a : α) : Reading α := ⟨some a, []⟩

/-- Goes on with what has been found; the cuts of both readings count. -/
def bind (m : Reading α) (f : α → Reading β) : Reading β :=
  match m.found? with
  | none => ⟨none, m.cuts⟩
  | some a =>
    let r := f a
    ⟨r.found?, m.cuts ++ r.cuts⟩

instance : Monad Reading where
  pure := pure
  bind := bind

/-- The reading finds the value, and all its cuts are at boundaries of the text. -/
structure Finds (source : String) (m : Reading α) (a : α) : Prop where
  found : m.found? = some a
  cuts : ∀ position ∈ m.cuts, IsBoundary source position

theorem Finds.pure (a : α) : Finds source (Pure.pure a) a :=
  ⟨rfl, fun _ h => nomatch h⟩

theorem Finds.bind {m : Reading α} {f : α → Reading β} {a : α} {b : β} (hm : Finds source m a)
    (hf : Finds source (f a) b) : Finds source (m >>= f) b := by
  have heq : m >>= f = ⟨(f a).found?, m.cuts ++ (f a).cuts⟩ := by
    show Reading.bind m f = _
    unfold Reading.bind
    rw [hm.found]
  rw [heq]
  refine ⟨hf.found, ?_⟩
  intro position h
  rcases List.mem_append.1 h with h | h
  · exact hm.cuts position h
  · exact hf.cuts position h

end Reading

/-- Looks at the character that starts at a position, which is then before the end of the text. -/
def charAt (source : String) (position : Nat) :
    Reading (Option { _c : Char // position < source.utf8ByteSize }) :=
  ⟨some ((char? source position).attach.map fun c => ⟨c.1, lt_of_char? c.2⟩), [position]⟩

/-- A character of the class starts at the position. -/
def startsIn (p : Char → Bool) (source : String) (position : Nat) : Reading Bool := do
  match ← charAt source position with
  | some ⟨c, _⟩ => return p c
  | none => return false

/-- Cuts out what lies between two positions. -/
def slice (source : String) (start stop : Nat) : Reading String :=
  ⟨between? source start stop, [start, stop]⟩

/-- The first position from the given one on at which no character of the class starts. -/
def passOver (p : Char → Bool) (source : String) (position : Nat) : Reading Nat := do
  match ← charAt source position with
  | some ⟨c, _⟩ => if p c then passOver p source (position + c.utf8Size) else return position
  | none => return position
termination_by source.utf8ByteSize - position
decreasing_by
  have := c.utf8Size_pos
  omega

/-! ### What the operations find -/

section Finds

variable {source : String} {position : Nat}

theorem RestAt.lt {c : Char} {cs : List Char} (h : RestAt source position (c :: cs)) :
    position < source.utf8ByteSize :=
  lt_of_char? h.char?

theorem RestAt.finds_none (h : RestAt source position []) :
    Reading.Finds source (charAt source position) none := by
  constructor
  · simp [charAt, h.char?]
  · intro cut hcut
    rw [List.mem_singleton.1 hcut]
    exact h.isBoundary

theorem RestAt.finds_char {c : Char} {cs : List Char} (h : RestAt source position (c :: cs)) :
    Reading.Finds source (charAt source position) (some ⟨c, h.lt⟩) := by
  constructor
  · simp [charAt, h.char?]
  · intro cut hcut
    rw [List.mem_singleton.1 hcut]
    exact h.isBoundary

theorem RestAt.finds_startsIn (p : Char → Bool) {rest : List Char}
    (h : RestAt source position rest) :
    Reading.Finds source (startsIn p source position) (rest.head?.any p) := by
  unfold startsIn
  cases rest with
  | nil => exact h.finds_none.bind (.pure false)
  | cons c cs => exact h.finds_char.bind (.pure (p c))

theorem RestAt.finds_slice {middle rest : List Char} (h : RestAt source position (middle ++ rest)) :
    Reading.Finds source (slice source position (position + byteLength middle))
      (String.ofList middle) := by
  constructor
  · exact h.between?
  · intro cut hcut
    rcases List.mem_cons.1 hcut with rfl | hcut
    · exact h.isBoundary
    · rw [List.mem_singleton.1 hcut]
      exact h.append.isBoundary

theorem RestAt.finds_passOver (p : Char → Bool) {rest : List Char}
    (h : RestAt source position rest) :
    Reading.Finds source (passOver p source position)
      (position + byteLength (rest.takeWhile p)) := by
  induction rest generalizing position with
  | nil =>
    rw [passOver]
    exact h.finds_none.bind (.pure position)
  | cons c rest ih =>
    rw [passOver]
    refine h.finds_char.bind ?_
    by_cases hc : p c
    · simpa [hc, Nat.add_assoc] using ih h.next
    · simpa [hc] using Reading.Finds.pure position

end Finds

end Text

end Runbook
