import Mathlib
import Runbook.Proofs.Number.Binary64
import Runbook.Proofs.Number.Numerals
import Runbook.Store

/-!
# Integers in text

A text that denotes an integer is read as that integer if it has 64 bits. Otherwise it is read once
more as a floating point number, and only the rounded number is held against the range. Rounding
takes no number above the range into it, as the first one above is a floating point number itself.
Below the range it does: the integers that lie nearest to the least one of 64 bits are read as that
one (`read_integer_text`).
-/

namespace Runbook

open Number Binary64

/-! ## Rounding at the limit of 64 bits -/

namespace Binary64

variable {m : Nat}

theorem log2_of_lt (h : 2 ^ 63 ≤ m) (hlt : m < 2 ^ 64) : m.log2 = 63 :=
  (Nat.log2_eq_iff (by omega)).2 ⟨h, hlt⟩

/-- Between `2 ^ 63` and `2 ^ 64` floating point numbers are 2048 apart. -/
theorem rounded_of_lt (h : 2 ^ 63 ≤ m) (hlt : m < 2 ^ 64) : rounded m = roundDiv m 2048 * 2048 := by
  have hplace : place m = 2048 := by
    rw [place, log2_of_lt h hlt]
    rfl
  rw [rounded, hplace]

theorem le_rounded (h : 2 ^ 63 ≤ m) : 2 ^ 63 ≤ rounded m := by
  have h52 : pow2 52 ≤ m := Nat.le_trans (by decide) h
  have hlog : 63 ≤ m.log2 := (Nat.le_log2 (by omega)).2 h
  have hpow : 2 ^ 63 ≤ pow2 m.log2 := Nat.pow_le_pow_right (by decide) hlog
  exact Nat.le_trans hpow (pow2_log2_le_rounded h52)

/-- The numbers that are rounded to `2 ^ 63` from above, the tie included. -/
theorem rounded_le_iff (h : 2 ^ 63 ≤ m) : rounded m ≤ 2 ^ 63 ↔ m ≤ 2 ^ 63 + 1024 := by
  rcases Nat.lt_or_ge m (2 ^ 64) with hlt | hge
  · rw [rounded_of_lt h hlt]
    unfold roundDiv
    dsimp only
    split
    · omega
    · split
      · omega
      · split <;> omega
  · have h52 : pow2 52 ≤ m := Nat.le_trans (by decide) h
    have hlog : 64 ≤ m.log2 := (Nat.le_log2 (by omega)).2 hge
    have hpow : 2 ^ 64 ≤ pow2 m.log2 := Nat.pow_le_pow_right (by decide) hlog
    have hrounded := pow2_log2_le_rounded h52
    omega

end Binary64

theorem Number.inRange_iff {n : Int} : inRange n = true ↔ -2 ^ 63 ≤ n ∧ n < 2 ^ 63 := by
  simp [inRange]

namespace Value

/-- The value of a decimal without a fraction that does not fit 64 bits. -/
theorem wholeFloat?_ofRatio_one {m : Nat} (negative : Bool) (h : 2 ^ 63 ≤ m) :
    wholeFloat? (ofRatio negative m 1) =
      if negative ∧ m ≤ 2 ^ 63 + 1024 then some (-2 ^ 63) else none := by
  have h52 : pow2 52 ≤ m := Nat.le_trans (by decide) h
  have hlow := le_rounded h
  have hnear := rounded_le_iff h
  unfold wholeFloat?
  rw [toInt?_ofRatio_one negative h52]
  split
  · rw [Option.filter_some]
    cases negative with
    | false =>
      have hout : inRange (signed false (rounded m)) = false := by
        rw [Bool.eq_false_iff, ne_eq, inRange_iff]
        show ¬ (-2 ^ 63 ≤ (rounded m : Int) ∧ (rounded m : Int) < 2 ^ 63)
        omega
      rw [hout]
      simp
    | true =>
      have hrange : inRange (signed true (rounded m)) = true ↔ m ≤ 2 ^ 63 + 1024 := by
        rw [inRange_iff]
        show -2 ^ 63 ≤ -(rounded m : Int) ∧ -(rounded m : Int) < 2 ^ 63 ↔ _
        omega
      by_cases hm : m ≤ 2 ^ 63 + 1024
      · rw [if_pos (hrange.2 hm), if_pos ⟨rfl, hm⟩]
        have hrounded : rounded m = 2 ^ 63 := Nat.le_antisymm (hnear.2 hm) hlow
        rw [hrounded]
        rfl
      · rw [if_neg fun hin => hm (hrange.1 hin), if_neg fun hboth => hm hboth.2]
  · rename_i hinfinite
    -- A number that is rounded to infinity is far beyond the limit.
    refine (if_neg fun hboth => hinfinite ?_).symm
    have hlt : m < 2 ^ 64 := by omega
    have hround : roundDiv m (place m) ≤ pow2 53 := (roundDiv_place h52).2
    rw [log2_of_lt h hlt]
    exact Nat.lt_of_le_of_lt (Nat.add_le_add_left hround _) (by decide)

theorem wholeFloat?_ofDecimal {m : Nat} (negative : Bool) (h : 2 ^ 63 ≤ m) :
    wholeFloat? (ofDecimal negative m 0) =
      if negative ∧ m ≤ 2 ^ 63 + 1024 then some (-2 ^ 63) else none := by
  have hnonzero : m ≠ 0 := by omega
  have hone : ofRatio negative (m * pow10 (0 : Int).toNat) (pow10 (-(0 : Int)).toNat) =
      ofRatio negative m 1 := by
    show ofRatio negative (m * 1) 1 = _
    rw [Nat.mul_one]
  unfold ofDecimal
  dsimp only
  rw [if_neg hnonzero]
  split
  · rename_i hsize
    have hinfinite : wholeFloat? (infinity negative) = none := by
      unfold wholeFloat?
      rw [toInt?_infinity]
      rfl
    rw [hinfinite]
    refine (if_neg fun hboth => ?_).symm
    have hdigits : (Nat.toDigits 10 m).length ≤ 310 := by
      refine (Nat.length_toDigits_le_iff (by decide) (by decide)).2 ?_
      calc m < 10 ^ 20 := by omega
        _ ≤ 10 ^ 310 := Nat.pow_le_pow_right (by decide) (by decide)
    omega
  · rw [if_neg (by omega), hone]
    exact wholeFloat?_ofRatio_one negative h

/-! ## Reading numerals -/

variable {s : String} {n : Int}

theorem toInt?_of_inRange (h : Numeral (Text.trim s.toList) n) (hn : -2 ^ 63 ≤ n ∧ n < 2 ^ 63) :
    (text s).toInt? = some n := by
  unfold toInt?
  dsimp only
  rw [h.readInt?_eq, if_pos (inRange_iff.2 hn)]

theorem toInt?_of_not_inRange (h : Numeral (Text.trim s.toList) n)
    (hn : ¬ (-2 ^ 63 ≤ n ∧ n < 2 ^ 63)) :
    (text s).toInt? = if -2 ^ 63 - 1024 ≤ n ∧ n < 0 then some (-2 ^ 63) else none := by
  obtain ⟨negative, hsign, hread⟩ := h.read?_eq
  have habs : 2 ^ 63 ≤ n.natAbs := by omega
  have hnegative : negative = true ↔ n < 0 := by
    cases negative with
    | false =>
      simp only [signed, Bool.false_eq_true, if_false] at hsign
      simp only [Bool.false_eq_true, false_iff]
      omega
    | true =>
      simp only [signed, if_true] at hsign
      simp only [true_iff]
      omega
  unfold toInt?
  dsimp only
  rw [h.readInt?_eq, if_neg fun hin => hn (inRange_iff.1 hin), hread]
  show wholeFloat? (ofDecimal negative n.natAbs 0) = _
  rw [wholeFloat?_ofDecimal negative habs]
  by_cases hnear : -2 ^ 63 - 1024 ≤ n ∧ n < 0
  · rw [if_pos hnear, if_pos ⟨hnegative.2 hnear.2, by omega⟩]
  · refine (if_neg fun hboth => hnear ?_).trans (if_neg hnear).symm
    have hlt := hnegative.1 hboth.1
    omega

theorem toNat?_of_numeral (h : Numeral (Text.trim s.toList) n) :
    (text s).toNat? = if 0 ≤ n ∧ n < 2 ^ 63 then some n.toNat else none := by
  unfold toNat?
  by_cases hn : -2 ^ 63 ≤ n ∧ n < 2 ^ 63
  · rw [toInt?_of_inRange h hn, Option.bind_some]
    by_cases hpos : 0 ≤ n
    · rw [if_pos hpos, if_pos ⟨hpos, hn.2⟩]
    · rw [if_neg hpos, if_neg fun hboth => hpos hboth.1]
  · -- what is read out of range is the least integer, which is no natural number
    have hout : ¬ (0 ≤ n ∧ n < 2 ^ 63) := by omega
    rw [toInt?_of_not_inRange h hn, if_neg hout]
    split <;> rfl

/-- A text that denotes an integer is read as that integer if the integer has 64 bits, and as a
natural number just if it is one below `2 ^ 63`. An integer of more bits stands for none, except
that those at most 1024 below the least integer of 64 bits are read as that one, because they are
rounded to it. A variable that holds such a text is read alike, the default standing in where
nothing is read. -/
theorem read_integer_text (h : Numeral (Text.trim s.toList) n) :
    (text s).toInt? =
        (if -2 ^ 63 ≤ n ∧ n < 2 ^ 63 then some n
        else if -2 ^ 63 - 1024 ≤ n ∧ n < 0 then some (-2 ^ 63) else none) ∧
      (text s).toNat? = (if 0 ≤ n ∧ n < 2 ^ 63 then some n.toNat else none) ∧
      ∀ (store : Store) (name : String), store.get? name = some (.text s) →
        (∀ default, store.read toInt? name default =
          if -2 ^ 63 ≤ n ∧ n < 2 ^ 63 then n
          else if -2 ^ 63 - 1024 ≤ n ∧ n < 0 then -2 ^ 63 else default) ∧
        ∀ default, store.read toNat? name default =
          if 0 ≤ n ∧ n < 2 ^ 63 then n.toNat else default := by
  have hint : (text s).toInt? =
      if -2 ^ 63 ≤ n ∧ n < 2 ^ 63 then some n
      else if -2 ^ 63 - 1024 ≤ n ∧ n < 0 then some (-2 ^ 63) else none := by
    split
    · exact toInt?_of_inRange h ‹_›
    · exact toInt?_of_not_inRange h ‹_›
  refine ⟨hint, toNat?_of_numeral h, fun store name hget => ⟨fun default => ?_, fun default => ?_⟩⟩
  · unfold Store.read
    rw [hget, Option.bind_some, hint]
    split
    · rfl
    · split <;> rfl
  · unfold Store.read
    rw [hget, Option.bind_some, toNat?_of_numeral h]
    split <;> rfl

/-- Just between the least integer of 64 bits and the next floating point number below it. -/
theorem read_integer_text_tie :
    let s := " -9223372036854776832\t"
    Numeral (Text.trim s.toList) (-9223372036854776832) ∧ (text s).toInt? = some (-2 ^ 63) ∧
      (text s).toNat? = none := by
  intro s
  have htrim : Text.trim s.toList = "-9223372036854776832".toList := by decide
  have hdigits : Token.IsDigits "9223372036854776832".toList := ⟨by decide, by simp⟩
  have hnumeral : Numeral (Text.trim s.toList) (-9223372036854776832) := by
    rw [htrim]
    exact .minus hdigits
  obtain ⟨hint, hnat, -⟩ := read_integer_text hnumeral
  exact ⟨hnumeral, hint, hnat⟩

/-- An integer out of range is read as another one, and a default is not used. -/
theorem read_integer_text_saturates :
    let s := "-9223372036854775809"
    let store := (∅ : Store).set "least" (.text s)
    Numeral (Text.trim s.toList) (-9223372036854775809) ∧
      ¬ (-2 ^ 63 ≤ (-9223372036854775809 : Int)) ∧
      (text s).toInt? = some (-9223372036854775808) ∧
      store.read toInt? "least" 0 = -9223372036854775808 := by
  intro s store
  have htrim : Text.trim s.toList = "-9223372036854775809".toList := by decide
  have hdigits : Token.IsDigits "9223372036854775809".toList := ⟨by decide, by simp⟩
  refine ⟨?_, by decide, by decide +kernel, by decide +kernel⟩
  rw [htrim]
  exact .minus hdigits

end Value

end Runbook
