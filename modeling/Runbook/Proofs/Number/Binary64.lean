import Runbook.Number.Binary64

/-!
# Floating point numbers and integers

What the bits of a number say, and what rounding does to a natural number. A significand has 53
bits, so a natural number of no more bits is a number itself, and a longer one is rounded to a
multiple of the place value of its 53rd bit (`toInt?_ofRatio_one`). A rounded significand may carry
into one bit more; then the fraction field is zero and the exponent field one larger, which names
the same number of units (`units_ofMagnitude`).
-/

namespace Runbook

open Number

namespace Binary64

theorem pow2_succ (n : Nat) : pow2 (n + 1) = pow2 n * 2 := Nat.pow_succ 2 n

theorem unit_pos : 0 < unit := pow2_pos 1074

/-! ## Fields -/

section Fields

variable {negative : Bool} {bits : Nat}

theorem toNat_bits_ofMagnitude (h : bits < pow2 63) :
    (ofMagnitude negative bits).bits.toNat = if negative then pow2 63 + bits else bits := by
  have h63 : pow2 63 = 9223372036854775808 := rfl
  rw [h63] at h
  unfold ofMagnitude
  rw [UInt64.toNat_ofNat', h63]
  exact Nat.mod_eq_of_lt (by split <;> omega)

theorem isNegative_ofMagnitude (h : bits < pow2 63) :
    (ofMagnitude negative bits).isNegative = negative := by
  have h63 : pow2 63 = 9223372036854775808 := rfl
  unfold isNegative
  rw [toNat_bits_ofMagnitude h, h63]
  rw [h63] at h
  cases negative
  · exact decide_eq_false (by simp only [Bool.false_eq_true, if_false]; omega)
  · exact decide_eq_true (by simp only [if_true]; omega)

theorem exponentField_ofMagnitude (h : bits < pow2 63) :
    (ofMagnitude negative bits).exponentField = bits / pow2 52 := by
  have h63 : pow2 63 = 9223372036854775808 := rfl
  have h52 : pow2 52 = 4503599627370496 := rfl
  have h11 : pow2 11 = 2048 := rfl
  unfold exponentField
  rw [toNat_bits_ofMagnitude h, h63, h52, h11]
  rw [h63] at h
  split <;> omega

theorem fractionField_ofMagnitude (h : bits < pow2 63) :
    (ofMagnitude negative bits).fractionField = bits % pow2 52 := by
  have h63 : pow2 63 = 9223372036854775808 := rfl
  have h52 : pow2 52 = 4503599627370496 := rfl
  unfold fractionField
  rw [toNat_bits_ofMagnitude h, h63, h52]
  split <;> omega

theorem isFinite_ofMagnitude_iff (h : bits < pow2 63) :
    (ofMagnitude negative bits).isFinite = true ↔ bits / pow2 52 ≠ 2047 := by
  unfold isFinite
  rw [exponentField_ofMagnitude h]
  exact decide_eq_true_iff

/-- A significand with its leading bit, or carried into one bit more, stands for itself. -/
theorem units_ofMagnitude {shift q : Nat} (hlow : pow2 52 ≤ q) (hhigh : q ≤ pow2 53)
    (h : shift * pow2 52 + q < pow2 63) :
    (ofMagnitude negative (shift * pow2 52 + q)).units = q * pow2 shift := by
  have h52 : pow2 52 = 4503599627370496 := rfl
  have h53 : pow2 53 = 9007199254740992 := rfl
  unfold units significand Binary64.shift
  rw [exponentField_ofMagnitude h, fractionField_ofMagnitude h]
  rcases Nat.lt_or_eq_of_le hhigh with hlt | rfl
  · have hexponent : (shift * pow2 52 + q) / pow2 52 = shift + 1 := by
      rw [h52] at hlow ⊢
      omega
    have hfraction : (shift * pow2 52 + q) % pow2 52 = q - pow2 52 := by
      rw [h52] at hlow ⊢
      omega
    rw [hexponent, hfraction, if_neg (Nat.succ_ne_zero shift), Nat.add_sub_cancel,
      Nat.add_sub_cancel' hlow]
  · have hexponent : (shift * pow2 52 + pow2 53) / pow2 52 = shift + 1 + 1 := by
      rw [h52, h53]
      omega
    have hfraction : (shift * pow2 52 + pow2 53) % pow2 52 = 0 := by
      rw [h52, h53]
      omega
    rw [hexponent, hfraction, if_neg (Nat.succ_ne_zero _), Nat.add_sub_cancel, Nat.add_zero,
      pow2_succ shift, pow2_succ 52, Nat.mul_assoc, Nat.mul_comm 2]

end Fields

theorem toInt?_infinity (negative : Bool) : (infinity negative).toInt? = none := by
  have hbits : infinityBits < pow2 63 := by decide
  have hinfinite : (infinity negative).isFinite = false :=
    Bool.eq_false_iff.2 fun h => (isFinite_ofMagnitude_iff hbits).1 h rfl
  unfold toInt?
  rw [hinfinite]
  rfl

/-! ## Distances -/

theorem significand_lt (x : Binary64) : x.significand < pow2 53 := by
  have hfraction : x.fractionField < pow2 52 := Nat.mod_lt _ (pow2_pos 52)
  have hdouble : pow2 53 = pow2 52 * 2 := pow2_succ 52
  unfold significand
  split <;> omega

/-- Below `2 ^ (53 + n)` units the numbers end `2 ^ n` units away from it. -/
theorem units_add_le {x : Binary64} {n : Nat} (h : x.units < pow2 (53 + n)) :
    x.units + pow2 n ≤ pow2 (53 + n) := by
  unfold units at h ⊢
  rcases Nat.lt_or_ge x.shift n with hshift | hshift
  · obtain ⟨m, rfl⟩ : ∃ m, n = m + 1 := ⟨n - 1, by omega⟩
    have hscale : pow2 x.shift ≤ pow2 m := Nat.pow_le_pow_right (by decide) (by omega)
    have hproduct : x.significand * pow2 x.shift ≤ pow2 53 * pow2 m :=
      Nat.mul_le_mul (Nat.le_of_lt x.significand_lt) hscale
    have hdistance : 2 * pow2 m ≤ pow2 53 * pow2 m := Nat.mul_le_mul_right _ (by decide)
    rw [pow2_add 53, pow2_succ m, ← Nat.mul_assoc]
    omega
  · -- The number is a multiple of the distance, and so is the limit.
    obtain ⟨k, hk⟩ := Nat.exists_eq_add_of_le hshift
    have hmultiple : x.significand * pow2 x.shift = x.significand * pow2 k * pow2 n := by
      rw [hk, Nat.add_comm, pow2_add, Nat.mul_assoc]
    rw [hmultiple, pow2_add 53] at h ⊢
    have hlt : x.significand * pow2 k < pow2 53 := Nat.lt_of_mul_lt_mul_right h
    calc x.significand * pow2 k * pow2 n + pow2 n
        = (x.significand * pow2 k + 1) * pow2 n := (Nat.succ_mul _ _).symm
      _ ≤ pow2 53 * pow2 n := Nat.mul_le_mul_right _ hlt

/-! ## Rounding -/

theorem le_roundDiv (num den : Nat) : num / den ≤ roundDiv num den := by
  unfold roundDiv
  dsimp only
  split
  · exact Nat.le_refl _
  · split
    · exact Nat.le_add_right _ 1
    · split
      · exact Nat.le_refl _
      · exact Nat.le_add_right _ 1

theorem roundDiv_le (num den : Nat) : roundDiv num den ≤ num / den + 1 := by
  unfold roundDiv
  dsimp only
  split
  · exact Nat.le_add_right _ 1
  · split
    · exact Nat.le_refl _
    · split
      · exact Nat.le_add_right _ 1
      · exact Nat.le_refl _

/-- A ratio is rounded alike in other units. -/
theorem roundDiv_mul_right (num den : Nat) {k : Nat} (hk : 0 < k) :
    roundDiv (num * k) (den * k) = roundDiv num den := by
  unfold roundDiv
  dsimp only
  rw [Nat.mul_div_mul_right num den hk, Nat.mul_mod_mul_right, ← Nat.mul_assoc]
  simp only [Nat.mul_lt_mul_right hk]

/-! ## Natural numbers of 53 bits or more -/

section Natural

variable {m : Nat}

/-- The place value of the 53rd bit of a natural number. -/
def place (m : Nat) : Nat := pow2 (m.log2 - 52)

/-- A natural number of 53 bits or more, rounded to its first 53 bits. -/
def rounded (m : Nat) : Nat := roundDiv m (place m) * place m

theorem log2_ge (h : pow2 52 ≤ m) : 52 ≤ m.log2 := by
  have hpos : m ≠ 0 := Nat.ne_of_gt (Nat.lt_of_lt_of_le (pow2_pos 52) h)
  exact (Nat.le_log2 hpos).2 h

theorem place_mul_unit (h : pow2 52 ≤ m) : pow2 (m.log2 + 1022) = place m * unit := by
  have hlog := log2_ge h
  rw [place, unit, ← pow2_add]
  exact congrArg pow2 (by omega)

theorem log2_mul_pow2 (h : m ≠ 0) (n : Nat) : (m * pow2 n).log2 = m.log2 + n := by
  have hpos : 0 < pow2 n := pow2_pos n
  rw [Nat.log2_eq_iff (Nat.mul_ne_zero h (Nat.ne_of_gt hpos)), Nat.add_right_comm, Nat.pow_add,
    Nat.pow_add]
  exact ⟨Nat.mul_le_mul_right _ (Nat.log2_self_le h),
    Nat.mul_lt_mul_of_pos_right Nat.lt_log2_self hpos⟩

/-- The first 53 bits, rounded. -/
theorem roundDiv_place (h : pow2 52 ≤ m) :
    pow2 52 ≤ roundDiv m (place m) ∧ roundDiv m (place m) ≤ pow2 53 := by
  have hpos : m ≠ 0 := Nat.ne_of_gt (Nat.lt_of_lt_of_le (pow2_pos 52) h)
  have hlog := log2_ge h
  have hlow : pow2 52 * place m ≤ m := by
    rw [place, ← pow2_add, Nat.add_sub_cancel' hlog]
    exact Nat.log2_self_le hpos
  have hhigh : m < pow2 53 * place m := by
    rw [place, ← pow2_add, show 53 + (m.log2 - 52) = m.log2 + 1 by omega]
    exact Nat.lt_log2_self
  constructor
  · exact Nat.le_trans ((Nat.le_div_iff_mul_le (pow2_pos _)).2 hlow) (le_roundDiv _ _)
  · exact Nat.le_trans (roundDiv_le _ _) ((Nat.div_lt_iff_lt_mul (pow2_pos _)).2 hhigh)

theorem pow2_log2_le_rounded (h : pow2 52 ≤ m) : pow2 m.log2 ≤ rounded m := by
  have hlog : pow2 m.log2 = pow2 52 * place m := by
    rw [place, ← pow2_add, Nat.add_sub_cancel' (log2_ge h)]
  rw [hlog]
  exact Nat.mul_le_mul_right _ (roundDiv_place h).1

theorem magnitudeBits_one (h : pow2 52 ≤ m) :
    magnitudeBits m 1 =
      min ((m.log2 + 1022) * pow2 52 + roundDiv m (place m)) infinityBits := by
  have hpos : m ≠ 0 := Nat.ne_of_gt (Nat.lt_of_lt_of_le (pow2_pos 52) h)
  have hscaled : (m * unit).log2 = m.log2 + 1074 := log2_mul_pow2 hpos 1074
  unfold magnitudeBits
  dsimp only
  rw [Nat.div_one, hscaled, show m.log2 + 1074 - 52 = m.log2 + 1022 by omega,
    Nat.one_mul, place_mul_unit h, roundDiv_mul_right m (place m) unit_pos]

/-- A natural number is rounded to a multiple of the place value of its 53rd bit, or to infinity. -/
theorem toInt?_ofRatio_one (negative : Bool) (h : pow2 52 ≤ m) :
    (ofRatio negative m 1).toInt? =
      if (m.log2 + 1022) * pow2 52 + roundDiv m (place m) < infinityBits then
        some (signed negative (rounded m))
      else none := by
  obtain ⟨hlow, hhigh⟩ := roundDiv_place h
  unfold ofRatio
  rw [magnitudeBits_one h]
  split
  · rename_i hfinite
    have hbits : (m.log2 + 1022) * pow2 52 + roundDiv m (place m) < pow2 63 :=
      Nat.lt_trans hfinite (by decide)
    have hexponent : ((m.log2 + 1022) * pow2 52 + roundDiv m (place m)) / pow2 52 ≠ 2047 :=
      Nat.ne_of_lt ((Nat.div_lt_iff_lt_mul (pow2_pos 52)).2 hfinite)
    have hunits : roundDiv m (place m) * pow2 (m.log2 + 1022) =
        rounded m * unit := by
      rw [place_mul_unit h, rounded, Nat.mul_assoc]
    rw [Nat.min_eq_left (Nat.le_of_lt hfinite)]
    unfold toInt?
    rw [units_ofMagnitude hlow hhigh hbits, (isFinite_ofMagnitude_iff hbits).2 hexponent,
      isNegative_ofMagnitude hbits, hunits, Nat.mul_mod_left, Nat.mul_div_cancel _ unit_pos]
    rfl
  · rename_i hinfinite
    rw [Nat.min_eq_right (Nat.le_of_not_lt hinfinite)]
    exact toInt?_infinity negative

end Natural

end Binary64

end Runbook
