/-!
# The order of bytes

Texts are ordered by their characters, and by the bytes of their UTF-8 form they come in the same
order (`utf8_lt_iff`). A character further on in the order has a first byte further on, or as many
bytes, of which the first that differs is further on.
-/

namespace Runbook

namespace Text

/-- The bytes of a text in UTF-8. -/
def utf8 (s : String) : List UInt8 := s.toUTF8.data.toList

theorem utf8_eq (s : String) : utf8 s = s.toList.flatMap String.utf8EncodeChar := by
  unfold utf8 String.toUTF8
  conv => lhs; rw [← s.ofList_toList, String.toByteArray_ofList, List.utf8Encode]
  rw [List.data_toByteArray]

section Bytes

variable {a b m n : Nat} {xs ys : List UInt8}

theorem byte_lt (ha : a < 256) (hb : b < 256) (h : a < b) (xs ys : List UInt8) :
    UInt8.ofNat a :: xs < UInt8.ofNat b :: ys := by
  refine List.cons_lt_cons_iff.2 (.inl ?_)
  rw [UInt8.lt_iff_toNat_lt, UInt8.toNat_ofNat_of_lt' ha, UInt8.toNat_ofNat_of_lt' hb]
  exact h

theorem byte_same (hab : a = b) (h : xs < ys) : UInt8.ofNat a :: xs < UInt8.ofNat b :: ys :=
  List.cons_lt_cons_iff.2 (.inr ⟨congrArg UInt8.ofNat hab, h⟩)

/-- Of two numbers the greater one has more sixty-fours, or as many and more left over. -/
theorem digits_lt (h : m < n) : m / 64 < n / 64 ∨ m / 64 = n / 64 ∧ m % 64 < n % 64 := by
  omega

end Bytes

theorem toNat_lt (c : Char) : c.val.toNat < 0x110000 := by
  have := c.valid
  unfold UInt32.isValidChar Nat.isValidChar at this
  omega

/-- Whatever follows, the bytes of a character come before those of a later one. -/
theorem utf8EncodeChar_append_lt {c d : Char} (h : c < d) (xs ys : List UInt8) :
    String.utf8EncodeChar c ++ xs < String.utf8EncodeChar d ++ ys := by
  have hd := toNat_lt d
  have hlt : c.val.toNat < d.val.toNat := h
  unfold String.utf8EncodeChar
  generalize c.val.toNat = m at *
  generalize d.val.toNat = n at *
  dsimp only
  -- By the lengths: as many bytes, or fewer and then a lesser first byte.
  split
  · split
    · exact byte_lt (by omega) (by omega) (by omega) _ _
    · split
      · exact byte_lt (by omega) (by omega) (by omega) _ _
      · split <;> exact byte_lt (by omega) (by omega) (by omega) _ _
  · split
    · rw [if_neg (by omega)]
      split
      · rcases digits_lt hlt with hfirst | ⟨hfirst, hlast⟩
        · exact byte_lt (by omega) (by omega) (by omega) _ _
        · exact byte_same (by omega) (byte_lt (by omega) (by omega) (by omega) _ _)
      · split <;> exact byte_lt (by omega) (by omega) (by omega) _ _
    · split
      · rw [if_neg (by omega), if_neg (by omega)]
        split
        · rcases digits_lt hlt with hfront | ⟨hfront, hlast⟩
          · rcases digits_lt hfront with hfirst | ⟨hfirst, hmiddle⟩
            · exact byte_lt (by omega) (by omega) (by omega) _ _
            · exact byte_same (by omega) (byte_lt (by omega) (by omega) (by omega) _ _)
          · exact byte_same (by omega) (byte_same (by omega)
              (byte_lt (by omega) (by omega) (by omega) _ _))
        · exact byte_lt (by omega) (by omega) (by omega) _ _
      · rw [if_neg (by omega), if_neg (by omega), if_neg (by omega)]
        rcases digits_lt hlt with hfront | ⟨hfront, hlast⟩
        · rcases digits_lt hfront with hfirst | ⟨hfirst, hthird⟩
          · rcases digits_lt hfirst with hfirst | ⟨hfirst, hsecond⟩
            · exact byte_lt (by omega) (by omega) (by omega) _ _
            · exact byte_same (by omega) (byte_lt (by omega) (by omega) (by omega) _ _)
          · exact byte_same (by omega) (byte_same (by omega)
              (byte_lt (by omega) (by omega) (by omega) _ _))
        · exact byte_same (by omega) (byte_same (by omega) (byte_same (by omega)
            (byte_lt (by omega) (by omega) (by omega) _ _)))

theorem utf8EncodeChar_ne_nil (c : Char) : String.utf8EncodeChar c ≠ [] := by
  unfold String.utf8EncodeChar
  dsimp only
  split
  · exact List.cons_ne_nil _ _
  · split
    · exact List.cons_ne_nil _ _
    · split <;> exact List.cons_ne_nil _ _

theorem append_lt_append_iff (front xs ys : List UInt8) : front ++ xs < front ++ ys ↔ xs < ys := by
  induction front with
  | nil => rfl
  | cons b front ih => simp [ih]

theorem flatMap_utf8_lt_iff (cs ds : List Char) :
    cs.flatMap String.utf8EncodeChar < ds.flatMap String.utf8EncodeChar ↔ cs < ds := by
  induction cs generalizing ds with
  | nil =>
    cases ds with
    | nil => simp
    | cons d ds =>
      obtain ⟨b, bs, hd⟩ := List.exists_cons_of_ne_nil (utf8EncodeChar_ne_nil d)
      simp [hd]
  | cons c cs ih =>
    cases ds with
    | nil => simp
    | cons d ds =>
      rw [List.flatMap_cons, List.flatMap_cons, List.cons_lt_cons_iff]
      rcases Nat.lt_trichotomy c.val.toNat d.val.toNat with hlt | heq | hgt
      · exact iff_of_true (utf8EncodeChar_append_lt hlt _ _) (.inl hlt)
      · obtain rfl : c = d := Char.ext (UInt32.toNat_inj.1 heq)
        rw [append_lt_append_iff, ih]
        simp
      · refine iff_of_false (List.lt_asymm (utf8EncodeChar_append_lt hgt _ _)) ?_
        rintro (hlt | ⟨rfl, -⟩)
        · exact absurd hlt (Nat.lt_asymm hgt)
        · exact Nat.lt_irrefl _ hgt

/-- Texts come in the order of their bytes. -/
theorem utf8_lt_iff {s t : String} : utf8 s < utf8 t ↔ s < t := by
  rw [utf8_eq, utf8_eq, flatMap_utf8_lt_iff, String.lt_iff]

end Text

end Runbook
