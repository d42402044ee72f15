import Runbook.Proofs.Number.Binary64
import Runbook.Span

/-!
# Which texts are spans

A text that names a positive number of seconds may fit a span or exceed it (`Span.Fits`,
`Span.Exceeds`): the limit is the first number of seconds that 64 bits do not hold. Reading takes
the first kind, and what it makes of them has seconds of 64 bits (`read_of_fits`); it refuses the
second kind as too long and every other text as no positive number (`read_of_exceeds`,
`read_of_neither`).

Rounding to nanoseconds does not carry a number over the limit, because the largest number below it
is many seconds away (`Binary64.units_add_le`).
-/

namespace Runbook

open Number

/-! ## Positive numbers -/

namespace Binary64

/-- Finite and above zero. -/
structure Positive (x : Binary64) : Prop where
  finite : x.isFinite = true
  unsigned : x.isNegative = false
  nonzero : x.units ≠ 0

instance (x : Binary64) : Decidable x.Positive :=
  decidable_of_iff (x.isFinite = true ∧ x.isNegative = false ∧ x.units ≠ 0)
    ⟨fun ⟨hfinite, hunsigned, hnonzero⟩ => ⟨hfinite, hunsigned, hnonzero⟩,
      fun h => ⟨h.finite, h.unsigned, h.nonzero⟩⟩

end Binary64

/-! ## Reading -/

namespace Span

/-- The units of the first number of seconds that 64 bits do not hold. -/
def limit : Nat := pow2 64 * Binary64.unit

/-- The text names a positive number of seconds that a span can hold. -/
def Fits (text : String) : Prop :=
  ∃ x, Binary64.read? text.toList = some x ∧ x.Positive ∧ x.units < limit

/-- The text names a positive number of seconds, but one that no span can hold. -/
def Exceeds (text : String) : Prop :=
  ∃ x, Binary64.read? text.toList = some x ∧ x.Positive ∧ limit ≤ x.units

-- Instances that look at the number itself, so that both can be evaluated.
instance (text : String) : Decidable (Fits text) :=
  decidable_of_iff ((Binary64.read? text.toList).any fun x => x.Positive ∧ x.units < limit)
    (by simp [Fits, Option.any_eq_true])

instance (text : String) : Decidable (Exceeds text) :=
  decidable_of_iff ((Binary64.read? text.toList).any fun x => x.Positive ∧ limit ≤ x.units)
    (by simp [Exceeds, Option.any_eq_true])

variable {text : String} {x : Binary64}

theorem read_of_read? (h : Binary64.read? text.toList = some x) (hx : x.Positive) :
    read text = ofSeconds x := by
  unfold read
  rw [h]
  exact if_pos (by simp [hx.finite, hx.unsigned, hx.nonzero])

/-- Rounding to nanoseconds keeps the seconds below the limit. -/
theorem seconds_lt (h : x.units < limit) :
    (Span.mk (Binary64.roundDiv (x.units * perSecond) Binary64.unit)).seconds < pow2 64 := by
  have hunit : 0 < Binary64.unit := pow2_pos 1074
  have hle : x.units + pow2 11 * Binary64.unit ≤ pow2 64 * Binary64.unit := by
    have hlimit : pow2 64 * Binary64.unit = pow2 (53 + (11 + 1074)) := by
      rw [Binary64.unit, ← pow2_add]
    have hgap : pow2 11 * Binary64.unit = pow2 (11 + 1074) := by
      rw [Binary64.unit, ← pow2_add]
    unfold limit at h
    rw [hlimit] at h ⊢
    rw [hgap]
    exact Binary64.units_add_le h
  have hquotient : x.units * perSecond / Binary64.unit + pow2 11 * perSecond ≤
      pow2 64 * perSecond := by
    rw [← Nat.add_mul_div_right _ _ hunit]
    refine Nat.div_le_of_le_mul ?_
    calc x.units * perSecond + pow2 11 * perSecond * Binary64.unit
        = (x.units + pow2 11 * Binary64.unit) * perSecond := by
          rw [Nat.add_mul, Nat.mul_right_comm]
      _ ≤ pow2 64 * Binary64.unit * perSecond := Nat.mul_le_mul_right _ hle
      _ = Binary64.unit * (pow2 64 * perSecond) := by
          rw [Nat.mul_comm (pow2 64), Nat.mul_assoc]
  have hround := Binary64.roundDiv_le (x.units * perSecond) Binary64.unit
  have hroom : 1 < pow2 11 * perSecond := by decide
  refine (Nat.div_lt_iff_lt_mul (by decide)).2 ?_
  dsimp only
  omega

theorem read_of_fits (h : Fits text) : ∃ span, read text = .ok span ∧ span.seconds < pow2 64 := by
  obtain ⟨x, hread, hpositive, hfits⟩ := h
  refine ⟨_, ?_, seconds_lt hfits⟩
  rw [read_of_read? hread hpositive]
  exact if_neg (Nat.not_le_of_lt hfits)

theorem read_of_exceeds (h : Exceeds text) : read text = .error .tooLong := by
  obtain ⟨x, hread, hpositive, hexceeds⟩ := h
  rw [read_of_read? hread hpositive]
  exact if_pos hexceeds

theorem read_of_neither (hfits : ¬ Fits text) (hexceeds : ¬ Exceeds text) :
    read text = .error .notPositive := by
  unfold read
  split
  · rename_i x hread
    refine if_neg fun hpositive => ?_
    simp only [Bool.and_eq_true, Bool.not_eq_true', decide_eq_true_eq] at hpositive
    obtain ⟨⟨hfinite, hunsigned⟩, hnonzero⟩ := hpositive
    rcases Nat.lt_or_ge x.units limit with hlt | hge
    · exact hfits ⟨x, hread, ⟨hfinite, hunsigned, hnonzero⟩, hlt⟩
    · exact hexceeds ⟨x, hread, ⟨hfinite, hunsigned, hnonzero⟩, hge⟩
  · rfl

end Span

end Runbook
