import Mathlib
import Runbook.Number.Whole
import Runbook.Proofs.Value

/-!
# The exact cast to integers of 64 bits

A finite number denotes a rational number (`toRat?`), which its fields give as the standard for
floating point numbers has it: a significand below one for an exponent field of zero, and one of
at least one and below two for the others. It is the number of units over the units in one
(`toRat?_of_isFinite`).

The whole part of a number drops the units that do not make up one (`units_trunc`), and a
difference that is not zero is not rounded to zero, so the fraction is zero just for the whole
numbers (`fract_equal_zero`). The order of bit patterns is that of the numbers of units
(`rank_lt_rank_iff`), so the comparisons with the limits are those of the values, and a whole
number between them is cast to itself (`whole?_eq`).
-/

namespace Runbook

open Number

namespace Binary64

/-! ## The value of a pattern -/

/-- The value of the fields without the sign. The exponent field is biased by 1023, and a field of
zero has the least exponent and a significand below one. -/
def size (x : Binary64) : ℚ :=
  if x.exponentField = 0 then (x.fractionField / 2 ^ 52 : ℚ) * 2 ^ (-1022 : ℤ)
  else (1 + x.fractionField / 2 ^ 52 : ℚ) * 2 ^ ((x.exponentField : ℤ) - 1023)

/-- The rational number that a pattern denotes, if it is finite. -/
def toRat? (x : Binary64) : Option ℚ :=
  if x.exponentField = 2047 then none else some (if x.isNegative then -x.size else x.size)

theorem cast_pow2 (n : Nat) : (pow2 n : ℚ) = 2 ^ n := by
  show ((2 ^ n : ℕ) : ℚ) = 2 ^ n
  rw [Nat.cast_pow, Nat.cast_ofNat]

/-- The significand below two is that of 53 bits with the point moved behind the first of them. -/
theorem size_eq (x : Binary64) : x.size = x.units / unit := by
  have hunits : (x.units : ℚ) / unit = x.significand * 2 ^ ((x.shift : ℤ) - 1074) := by
    unfold units unit
    rw [Nat.cast_mul, cast_pow2, cast_pow2, mul_div_assoc, zpow_sub₀ two_ne_zero, zpow_natCast,
      zpow_ofNat]
  have hmoved : ∀ k : ℤ, (2 : ℚ) ^ (k - 52) = 2 ^ k / 2 ^ 52 :=
    fun k => zpow_sub₀ two_ne_zero k 52
  rw [hunits]
  unfold size significand shift
  split
  · have hexponent : ((x.exponentField - 1 : ℕ) : ℤ) - 1074 = -1022 - 52 := by omega
    rw [hexponent, hmoved, mul_div_assoc', mul_div_right_comm]
  · have hexponent :
        ((x.exponentField - 1 : ℕ) : ℤ) - 1074 = ((x.exponentField : ℤ) - 1023) - 52 := by
      omega
    rw [hexponent, hmoved, Nat.cast_add, cast_pow2, mul_div_assoc', mul_div_right_comm, add_div,
      div_self (by norm_num)]

/-- The value of a finite number is the number of its units over the units in one. -/
theorem toRat?_of_isFinite {x : Binary64} (h : x.isFinite = true) :
    x.toRat? = some ((x.signedUnits : ℚ) / unit) := by
  have hfield : x.exponentField ≠ 2047 := of_decide_eq_true h
  unfold toRat? signedUnits signed
  rw [if_neg hfield, size_eq]
  split
  · rw [Int.cast_neg, Int.cast_natCast, neg_div]
  · rw [Int.cast_natCast]

/-! ## Integers among the values -/

theorem signed_mul (negative : Bool) (m n : Nat) :
    signed negative (m * n) = signed negative m * n := by
  cases negative with
  | false => exact Int.natCast_mul m n
  | true =>
    show -((m * n : ℕ) : ℤ) = -m * n
    rw [Int.natCast_mul, Int.neg_mul]

theorem natAbs_signed (negative : Bool) (n : Nat) : (signed negative n).natAbs = n := by
  cases negative with
  | false => exact Int.natAbs_natCast n
  | true => exact (Int.natAbs_neg _).trans (Int.natAbs_natCast n)

/-- A number of units is a whole number if it can be divided by the units in one. -/
theorem signed_eq_mul_iff {negative : Bool} {m d : Nat} {n : Int} (hd : 0 < d) :
    signed negative m = n * d ↔ m % d = 0 ∧ signed negative (m / d) = n := by
  constructor
  · intro h
    have hm : m = n.natAbs * d := by
      rw [← natAbs_signed negative m, h, Int.natAbs_mul, Int.natAbs_natCast]
    have hd' : (d : ℤ) ≠ 0 := by omega
    refine ⟨hm ▸ Nat.mul_mod_left _ _, Int.eq_of_mul_eq_mul_right hd' ?_⟩
    rw [← h, ← signed_mul, hm, Nat.mul_div_cancel _ hd]
  · rintro ⟨hmod, rfl⟩
    rw [← signed_mul, Nat.div_mul_cancel (Nat.dvd_of_mod_eq_zero hmod)]

/-- A number stands for an integer if it is finite and has as many units as that. -/
theorem toInt?_eq_some {x : Binary64} {n : Int} :
    x.toInt? = some n ↔ x.isFinite = true ∧ x.signedUnits = n * unit := by
  unfold signedUnits toInt?
  rw [signed_eq_mul_iff unit_pos, Option.ite_none_right_eq_some, Bool.and_eq_true_iff,
    decide_eq_true_eq, Option.some.injEq, and_assoc]

/-- A number stands for an integer just if the integer is its value. -/
theorem toInt?_eq_some_iff {x : Binary64} {n : Int} :
    x.toInt? = some n ↔ x.toRat? = some (n : ℚ) := by
  rw [toInt?_eq_some]
  by_cases h : x.isFinite = true
  · have hunit : (unit : ℚ) ≠ 0 := Nat.cast_ne_zero.2 unit_pos.ne'
    rw [toRat?_of_isFinite h, Option.some.injEq, div_eq_iff hunit, ← Int.cast_natCast (R := ℚ),
      ← Int.cast_mul, Int.cast_inj]
    exact and_iff_right h
  · have hfield : x.exponentField = 2047 := by simpa [isFinite] using h
    unfold toRat?
    rw [if_pos hfield]
    exact ⟨fun hvalue => absurd hvalue.1 h, nofun⟩

/-! ## Whole parts -/

theorem units_zero (negative : Bool) : (zero negative).units = 0 := by
  cases negative <;> rfl

theorem exponentField_zero (negative : Bool) : (zero negative).exponentField = 0 := by
  cases negative <;> rfl

theorem isNegative_zero (negative : Bool) : (zero negative).isNegative = negative := by
  cases negative <;> rfl

/-- The bits without the sign are the two other fields. -/
theorem magnitude_eq (x : Binary64) :
    x.magnitude = x.exponentField * pow2 52 + x.fractionField := by
  have h63 : pow2 63 = 9223372036854775808 := rfl
  have h52 : pow2 52 = 4503599627370496 := rfl
  have h11 : pow2 11 = 2048 := rfl
  unfold magnitude exponentField fractionField
  rw [h63, h52, h11]
  omega

theorem magnitude_lt (x : Binary64) : x.magnitude < pow2 63 := Nat.mod_lt _ (pow2_pos 63)

theorem pow2_le {m n : Nat} (h : m ≤ n) : pow2 m ≤ pow2 n := Nat.pow_le_pow_right (by decide) h

theorem pow2_dvd {m n : Nat} (h : m ≤ n) : pow2 m ∣ pow2 n := Nat.pow_dvd_pow 2 h

/-- Numbers with the least exponents are below one. -/
theorem units_lt_unit {x : Binary64} (h : x.exponentField < 1023) : x.units < unit := by
  have hscale : pow2 x.shift ≤ pow2 1021 := pow2_le (by unfold shift; omega)
  calc x.units < pow2 53 * pow2 x.shift :=
        Nat.mul_lt_mul_of_pos_right x.significand_lt (pow2_pos _)
    _ ≤ pow2 53 * pow2 1021 := Nat.mul_le_mul_left _ hscale
    _ = unit := (pow2_add 53 1021).symm

/-- Numbers with the greatest exponents are multiples of one. -/
theorem unit_dvd_units {x : Binary64} (h : 1075 ≤ x.exponentField) : unit ∣ x.units := by
  have hscale : unit ∣ pow2 x.shift := pow2_dvd (by unfold shift; omega)
  exact Dvd.dvd.mul_left hscale _

theorem clear_add {low a : Nat} (h : low ∣ a) (b : Nat) :
    (a + b) / low * low = a + b / low * low := by
  rw [Nat.add_div_of_dvd_right h, Nat.add_mul, Nat.div_mul_cancel h]

theorem clear_lt (x : Binary64) (low : Nat) : x.magnitude / low * low < pow2 63 :=
  Nat.lt_of_le_of_lt (Nat.div_mul_le_self _ _) x.magnitude_lt

/-- Bits that are cleared among the last 52 are cleared in the fraction field. -/
theorem fields_clear {low : Nat} (h : low ∣ pow2 52) (x : Binary64) (negative : Bool) :
    (ofMagnitude negative (x.magnitude / low * low)).exponentField = x.exponentField ∧
      (ofMagnitude negative (x.magnitude / low * low)).fractionField =
        x.fractionField / low * low := by
  have hfraction : x.fractionField / low * low < pow2 52 :=
    Nat.lt_of_le_of_lt (Nat.div_mul_le_self _ _) (Nat.mod_lt _ (pow2_pos 52))
  have hcleared : x.magnitude / low * low =
      pow2 52 * x.exponentField + x.fractionField / low * low := by
    rw [magnitude_eq, clear_add (Dvd.dvd.mul_left h _), Nat.mul_comm]
  rw [exponentField_ofMagnitude (x.clear_lt low), fractionField_ofMagnitude (x.clear_lt low),
    hcleared]
  constructor
  · rw [Nat.mul_add_div (pow2_pos 52), Nat.div_eq_of_lt hfraction, Nat.add_zero]
  · rw [Nat.mul_add_mod, Nat.mod_eq_of_lt hfraction]

/-- In between the bits below one are the last of the significand. -/
theorem units_clear {x : Binary64} (hlow : 1023 ≤ x.exponentField) (hhigh : x.exponentField < 1075)
    (negative : Bool) :
    let low := pow2 (1075 - x.exponentField)
    (ofMagnitude negative (x.magnitude / low * low)).isFinite = true ∧
      (ofMagnitude negative (x.magnitude / low * low)).units = x.units / unit * unit := by
  intro low
  have hdvd : low ∣ pow2 52 := pow2_dvd (by omega)
  obtain ⟨hexponent, hfraction⟩ := fields_clear hdvd x negative
  have hunit : unit = low * pow2 (x.exponentField - 1) := by
    show pow2 1074 = pow2 _ * pow2 _
    rw [← pow2_add]
    exact congrArg pow2 (by omega)
  constructor
  · unfold isFinite
    rw [hexponent]
    exact decide_eq_true (by omega)
  · unfold units significand shift
    rw [hexponent, hfraction, if_neg (by omega), if_neg (by omega), hunit,
      Nat.mul_div_mul_right _ _ (pow2_pos _), ← clear_add hdvd, Nat.mul_assoc]

/-- The whole part of a finite number has its sign and drops the units that do not make up one. -/
theorem units_trunc {x : Binary64} (h : x.isFinite = true) :
    x.trunc.isFinite = true ∧ x.trunc.isNegative = x.isNegative ∧
      x.trunc.units = x.units / unit * unit := by
  unfold trunc
  split
  · rename_i hsmall
    refine ⟨?_, isNegative_zero _, ?_⟩
    · unfold isFinite
      rw [exponentField_zero]
      rfl
    · rw [units_zero, Nat.div_eq_of_lt (units_lt_unit hsmall), Nat.zero_mul]
  · split
    · rename_i hlarge
      exact ⟨h, rfl, (Nat.div_mul_cancel (unit_dvd_units hlarge)).symm⟩
    · rename_i hsmall hlarge
      obtain ⟨hfinite, hunits⟩ :=
        units_clear (Nat.le_of_not_lt hsmall) (Nat.lt_of_not_le hlarge) x.isNegative
      exact ⟨hfinite, isNegative_ofMagnitude (x.clear_lt _), hunits⟩

/-! ## Comparisons -/

section Comparisons

variable {x y : Binary64}

theorem isNaN_of_isFinite (h : x.isFinite = true) : x.isNaN = false := by
  have hfield : x.exponentField ≠ 2047 := of_decide_eq_true h
  unfold isNaN
  rw [decide_eq_false hfield, Bool.false_and]

theorem units_lt_pow2 (x : Binary64) : x.units < pow2 52 * pow2 x.exponentField := by
  have hfraction : x.fractionField < pow2 52 := Nat.mod_lt _ (pow2_pos 52)
  by_cases hzero : x.exponentField = 0
  · unfold units significand shift
    rw [if_pos hzero, hzero]
    exact Nat.mul_lt_mul_of_pos_right hfraction (pow2_pos 0)
  · obtain ⟨e, he⟩ := Nat.exists_eq_succ_of_ne_zero hzero
    have hdouble : pow2 52 * pow2 (e + 1) = pow2 53 * pow2 e := by
      rw [← pow2_add, ← pow2_add]
      exact congrArg pow2 (by omega)
    unfold units shift
    rw [he, Nat.succ_sub_one, hdouble]
    exact Nat.mul_lt_mul_of_pos_right x.significand_lt (pow2_pos e)

/-- A larger pattern stands for more units. -/
theorem units_lt_units (h : x.magnitude < y.magnitude) : x.units < y.units := by
  have hx : x.fractionField < pow2 52 := Nat.mod_lt _ (pow2_pos 52)
  have hy : y.fractionField < pow2 52 := Nat.mod_lt _ (pow2_pos 52)
  rw [magnitude_eq, magnitude_eq] at h
  rcases Nat.lt_trichotomy x.exponentField y.exponentField with hlt | heq | hgt
  · have hzero : y.exponentField ≠ 0 := by omega
    calc x.units < pow2 52 * pow2 x.exponentField := x.units_lt_pow2
      _ ≤ pow2 52 * pow2 y.shift := Nat.mul_le_mul_left _ (pow2_le (by unfold shift; omega))
      _ ≤ y.units := by
        unfold units significand
        rw [if_neg hzero]
        exact Nat.mul_le_mul_right _ (Nat.le_add_right _ _)
  · have hsignificand : x.significand < y.significand := by
      rw [heq] at h
      have hfraction := Nat.lt_of_add_lt_add_left h
      unfold significand
      rw [heq]
      split
      · exact hfraction
      · exact Nat.add_lt_add_left hfraction _
    unfold units shift
    rw [heq]
    exact Nat.mul_lt_mul_of_pos_right hsignificand (pow2_pos _)
  · have hfields : (y.exponentField + 1) * pow2 52 ≤ x.exponentField * pow2 52 :=
      Nat.mul_le_mul_right _ hgt
    rw [Nat.add_mul, Nat.one_mul] at hfields
    omega

theorem units_eq_units (h : x.magnitude = y.magnitude) : x.units = y.units := by
  have h63 : pow2 63 = 9223372036854775808 := rfl
  have h52 : pow2 52 = 4503599627370496 := rfl
  have h11 : pow2 11 = 2048 := rfl
  have hexponent : x.exponentField = y.exponentField := by
    unfold magnitude at h
    unfold exponentField
    rw [h63] at h
    rw [h52, h11]
    omega
  have hfraction : x.fractionField = y.fractionField := by
    rw [magnitude_eq, magnitude_eq, hexponent] at h
    exact Nat.add_left_cancel h
  unfold units significand shift
  rw [hexponent, hfraction]

theorem units_eq_zero_iff (x : Binary64) : x.units = 0 ↔ x.magnitude = 0 := by
  have hzero : (zero false).magnitude = 0 := rfl
  rcases Nat.eq_zero_or_pos x.magnitude with h | h
  · rw [units_eq_units (h.trans hzero.symm), units_zero, h]
  · have hpos := units_lt_units (hzero ▸ h)
    omega

/-- The order of the patterns is the order of their values. -/
theorem rank_lt_rank_iff : x.rank < y.rank ↔ x.signedUnits < y.signedUnits := by
  have hxy : x.magnitude < y.magnitude → x.units < y.units := units_lt_units
  have hyx : y.magnitude < x.magnitude → y.units < x.units := units_lt_units
  have heq : x.magnitude = y.magnitude → x.units = y.units := units_eq_units
  have hx := x.units_eq_zero_iff
  have hy := y.units_eq_zero_iff
  unfold rank signedUnits signed
  split <;> split <;> omega

theorem less_iff (hx : x.isFinite = true) (hy : y.isFinite = true) :
    x.less y = true ↔ x.signedUnits < y.signedUnits := by
  simp [less, isNaN_of_isFinite hx, isNaN_of_isFinite hy, rank_lt_rank_iff]

theorem lessOrEqual_iff (hx : x.isFinite = true) (hy : y.isFinite = true) :
    x.lessOrEqual y = true ↔ x.signedUnits ≤ y.signedUnits := by
  have hrank : x.rank ≤ y.rank ↔ x.signedUnits ≤ y.signedUnits := by
    rw [← not_lt, ← not_lt, rank_lt_rank_iff]
  simp [lessOrEqual, isNaN_of_isFinite hx, isNaN_of_isFinite hy, hrank]

theorem equal_zero_iff (negative : Bool) :
    x.equal (zero negative) = true ↔ x.isNaN = false ∧ x.magnitude = 0 := by
  have hnan : (zero negative).isNaN = false := by cases negative <;> rfl
  have hrank : (zero negative).rank = 0 := by cases negative <;> rfl
  have hmagnitude : x.rank = 0 ↔ x.magnitude = 0 := by
    unfold rank signed
    split <;> omega
  unfold equal
  rw [hnan, hrank]
  simp [hmagnitude]

end Comparisons

/-! ## Fractions -/

/-- What is not zero is not rounded to zero. -/
theorem magnitudeBits_unit_pos {d : Nat} (h : d ≠ 0) : 0 < magnitudeBits d unit := by
  have hscale : pow2 (d.log2 - 52) ≤ d :=
    Nat.le_trans (pow2_le (Nat.sub_le _ _)) (Nat.log2_self_le h)
  have hround : 0 < roundDiv (d * unit) (unit * pow2 (d.log2 - 52)) := by
    refine Nat.lt_of_lt_of_le ?_ (le_roundDiv _ _)
    rw [Nat.mul_comm d, Nat.mul_div_mul_left _ _ unit_pos]
    exact Nat.div_pos hscale (pow2_pos _)
  unfold magnitudeBits
  dsimp only
  rw [Nat.mul_div_cancel _ unit_pos]
  exact Nat.lt_min.2 ⟨Nat.add_pos_right _ hround, by decide⟩

theorem magnitudeBits_le (num den : Nat) : magnitudeBits num den ≤ infinityBits :=
  Nat.min_le_right _ _

theorem magnitude_ofMagnitude {negative : Bool} {bits : Nat} (h : bits < pow2 63) :
    (ofMagnitude negative bits).magnitude = bits := by
  unfold magnitude
  rw [toNat_bits_ofMagnitude h]
  split
  · rw [Nat.add_mod_left, Nat.mod_eq_of_lt h]
  · exact Nat.mod_eq_of_lt h

theorem infinityBits_lt : infinityBits < pow2 63 := by decide

/-- A difference is zero just between equal values. -/
theorem sub_equal_zero_iff {x y : Binary64} (hx : x.isFinite = true) (hy : y.isFinite = true) :
    (x.sub y).equal (zero false) = true ↔ x.signedUnits = y.signedUnits := by
  unfold sub
  rw [isNaN_of_isFinite hx, isNaN_of_isFinite hy, hx, hy]
  simp only [Bool.or_false, Bool.not_true, Bool.false_eq_true, if_false]
  by_cases h : x.signedUnits = y.signedUnits
  · have hzero : ∀ negative, (zero negative).isNaN = false ∧ (zero negative).magnitude = 0 := by
      decide
    rw [if_pos (Int.sub_eq_zero.2 h), equal_zero_iff]
    exact ⟨fun _ => h, fun _ => hzero _⟩
  · have hdifference : x.signedUnits - y.signedUnits ≠ 0 := fun hzero => h (Int.sub_eq_zero.1 hzero)
    have hbits := Nat.lt_of_le_of_lt
      (magnitudeBits_le (x.signedUnits - y.signedUnits).natAbs unit) infinityBits_lt
    have hpos := magnitudeBits_unit_pos (Int.natAbs_ne_zero.2 hdifference)
    rw [if_neg hdifference, equal_zero_iff, ofRatio, magnitude_ofMagnitude hbits]
    exact ⟨fun hzero => absurd hzero.2 hpos.ne', fun heq => absurd heq h⟩

/-- What is not finite is its own whole part and has no fraction. -/
theorem fract_of_not_isFinite {x : Binary64} (h : x.isFinite = false) : x.fract = nan := by
  have hfield : x.exponentField = 2047 := by simpa [isFinite] using h
  have htrunc : x.trunc = x := by
    unfold trunc
    rw [hfield]
    rfl
  unfold fract sub
  rw [htrunc, h, beq_self_eq_true]
  exact ite_self _

/-- The fraction is zero just for the whole numbers. -/
theorem fract_equal_zero (x : Binary64) : x.fract.equal (zero false) = x.toInt?.isSome := by
  rw [Bool.eq_iff_iff, Option.isSome_iff_exists]
  cases h : x.isFinite with
  | false =>
    rw [fract_of_not_isFinite h, equal_zero_iff]
    refine ⟨fun hzero => absurd hzero.1 (by decide), ?_⟩
    rintro ⟨n, hn⟩
    exact absurd (toInt?_eq_some.1 hn).1 (Bool.eq_false_iff.1 h)
  | true =>
    obtain ⟨hfinite, hnegative, hunits⟩ := units_trunc h
    have hsigned : x.trunc.signedUnits = signed x.isNegative (x.units / unit) * unit := by
      unfold signedUnits
      rw [hnegative, hunits, signed_mul]
    unfold fract
    rw [sub_equal_zero_iff h hfinite, hsigned]
    constructor
    · exact fun heq => ⟨_, toInt?_eq_some.2 ⟨h, heq⟩⟩
    · rintro ⟨n, hn⟩
      obtain ⟨-, heq⟩ := toInt?_eq_some.1 hn
      rw [((signed_eq_mul_iff unit_pos).1 heq).2, heq]

/-! ## The cast -/

theorem isFinite_limit (negative : Bool) : (limit negative).isFinite = true := by
  cases negative <;> rfl

theorem signedUnits_limit (negative : Bool) :
    (limit negative).signedUnits = signed negative (2 ^ 63) * unit := by
  have hbits : 0x43E0000000000000 = 1085 * pow2 52 + pow2 52 := rfl
  have hlt : 1085 * pow2 52 + pow2 52 < pow2 63 := by decide
  have hunits : pow2 52 * pow2 1085 = pow2 63 * unit := by
    rw [unit, ← pow2_add, ← pow2_add]
  unfold signedUnits limit
  rw [hbits, isNegative_ofMagnitude hlt,
    units_ofMagnitude (Nat.le_refl _) (pow2_le (by decide)) hlt, hunits, signed_mul]
  rfl

section Whole

variable {x : Binary64} {n : Int}

theorem limit_lessOrEqual_iff (h : x.toInt? = some n) :
    (limit true).lessOrEqual x = true ↔ -2 ^ 63 ≤ n := by
  obtain ⟨hfinite, hunits⟩ := toInt?_eq_some.1 h
  rw [lessOrEqual_iff (isFinite_limit true) hfinite, signedUnits_limit, hunits]
  exact Int.mul_le_mul_right (Int.natCast_pos.2 unit_pos)

theorem less_limit_iff (h : x.toInt? = some n) : x.less (limit false) = true ↔ n < 2 ^ 63 := by
  obtain ⟨hfinite, hunits⟩ := toInt?_eq_some.1 h
  rw [less_iff hfinite (isFinite_limit false), signedUnits_limit, hunits]
  exact Int.mul_lt_mul_right (Int.natCast_pos.2 unit_pos)

/-- The cast of a whole number in range is the number. -/
theorem toInt64_of_inRange (h : x.toInt? = some n) (hlow : -2 ^ 63 ≤ n) (hhigh : n < 2 ^ 63) :
    x.toInt64 = n := by
  obtain ⟨hfinite, hunits⟩ := toInt?_eq_some.1 h
  have hwhole := ((signed_eq_mul_iff unit_pos).1 hunits).2
  unfold toInt64
  rw [isNaN_of_isFinite hfinite, hfinite, hwhole]
  show clamp n = n
  unfold clamp
  rw [if_neg (by omega), if_neg (by omega)]

end Whole

theorem whole?_eq (x : Binary64) : x.whole? = Value.wholeFloat? x := by
  unfold whole? Value.wholeFloat?
  rw [fract_equal_zero]
  cases h : x.toInt? with
  | none => rfl
  | some n =>
    rw [Option.isSome_some, Bool.true_and, Option.filter_some]
    by_cases hin : -2 ^ 63 ≤ n ∧ n < 2 ^ 63
    · rw [(limit_lessOrEqual_iff h).2 hin.1, (less_limit_iff h).2 hin.2,
        toInt64_of_inRange h hin.1 hin.2, inRange_iff.2 hin]
      rfl
    · rw [if_neg fun hboth => hin (inRange_iff.1 hboth)]
      apply if_neg
      intro hboth
      obtain ⟨hlow, hhigh⟩ := Bool.and_eq_true_iff.1 hboth
      exact hin ⟨(limit_lessOrEqual_iff h).1 hlow, (less_limit_iff h).1 hhigh⟩

/-- The lower limit is in range. The upper one is not, and the cast would take it for the greatest
integer. -/
example : (limit true).whole? = some (-2 ^ 63) ∧ (limit false).whole? = none ∧
    (limit false).toInt64 = 2 ^ 63 - 1 := by
  decide +kernel

end Binary64

namespace Value

/-- The integer read is the value of the number, if that is in range. -/
theorem wholeFloat?_eq_some_iff {x : Binary64} {n : Int} :
    wholeFloat? x = some n ↔ x.toRat? = some (n : ℚ) ∧ -2 ^ 63 ≤ n ∧ n < 2 ^ 63 := by
  unfold wholeFloat?
  rw [Option.filter_eq_some_iff, Binary64.toInt?_eq_some_iff, inRange_iff]

/-- A floating point number is read as an integer just if its value is one of 64 bits, and as a
natural number just if the value is not negative either, and what is read is the value. The
operations that floating point numbers have lead there: comparing the rounded fraction with zero
and the number with the limits of the range, and casting. -/
theorem float_read_exactly (x : Binary64) :
    (∀ n : Int, (float x).toInt? = some n ↔
      ∃ q, x.toRat? = some q ∧ q = n ∧ -2 ^ 63 ≤ q ∧ q < 2 ^ 63) ∧
    (∀ n : Nat, (float x).toNat? = some n ↔
      ∃ q, x.toRat? = some q ∧ q = n ∧ 0 ≤ q ∧ q < 2 ^ 63) ∧
    (float x).toInt? = x.whole? := by
  have hint : ∀ n : Int, (float x).toInt? = some n ↔
      ∃ q, x.toRat? = some q ∧ q = n ∧ -2 ^ 63 ≤ q ∧ q < 2 ^ 63 := by
    intro n
    refine wholeFloat?_eq_some_iff.trans ?_
    constructor
    · rintro ⟨hvalue, hlow, hhigh⟩
      exact ⟨n, hvalue, rfl, by exact_mod_cast hlow, by exact_mod_cast hhigh⟩
    · rintro ⟨q, hvalue, rfl, hlow, hhigh⟩
      exact ⟨hvalue, by exact_mod_cast hlow, by exact_mod_cast hhigh⟩
  refine ⟨hint, fun n => ?_, x.whole?_eq.symm⟩
  unfold toNat?
  rw [Option.bind_eq_some_iff]
  constructor
  · rintro ⟨m, hm, hn⟩
    obtain ⟨q, hvalue, rfl, -, hhigh⟩ := (hint m).1 hm
    obtain ⟨hpos, hnat⟩ := Option.ite_none_right_eq_some.1 hn
    have hvalue_nat : (m : ℚ) = (n : ℚ) := by
      rw [← Option.some.inj hnat, ← Int.cast_natCast, Int.toNat_of_nonneg hpos]
    exact ⟨m, hvalue, hvalue_nat, Int.cast_nonneg hpos, hhigh⟩
  · rintro ⟨q, hvalue, rfl, hpos, hhigh⟩
    refine ⟨n, (hint n).2 ⟨_, hvalue, (Int.cast_natCast n).symm, ?_, hhigh⟩, ?_⟩
    · exact le_trans (by norm_num) hpos
    · rw [if_pos (Int.natCast_nonneg n), Int.toNat_natCast]

end Value

end Runbook
