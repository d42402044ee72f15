import Mathlib.Data.List.TakeWhile
import Runbook.Number.Reading
import Runbook.Proofs.Token.Grammar

/-!
# Numerals

A numeral is an optional sign and decimal digits, and it denotes an integer of any size. Reading it
as an integer of 64 bits gives just that integer, or nothing if it has more bits
(`Numeral.readInt?_eq`); reading it as a floating point number gives the decimal without a fraction
or an exponent, yet to be rounded (`Numeral.read?_eq`).
-/

namespace Runbook

open Number Binary64 Token

/-- An optional sign and decimal digits, with the integer that they denote. -/
inductive Numeral : List Char → Int → Prop
  | plain {ds : List Char} : IsDigits ds → Numeral ds (Nat.ofDigitChars 10 ds 0)
  | plus {ds : List Char} : IsDigits ds → Numeral ('+' :: ds) (Nat.ofDigitChars 10 ds 0)
  | minus {ds : List Char} : IsDigits ds → Numeral ('-' :: ds) (-(Nat.ofDigitChars 10 ds 0))

/-! ## Digits -/

theorem digitsValue_eq (ds : List Char) : digitsValue ds = Nat.ofDigitChars 10 ds 0 :=
  Nat.ofDigitChars_eq_foldl.symm

theorem readDigits?_eq {ds : List Char} (h : IsDigits ds) :
    readDigits? ds = some (Nat.ofDigitChars 10 ds 0) := by
  unfold readDigits?
  rw [if_pos ⟨h.1, List.all_eq_true.2 h.2⟩, digitsValue_eq]

theorem toLower_of_isDigit {c : Char} (h : c.isDigit) : c.toLower = c := by
  have hnine : c.val.toNat ≤ 57 := by
    simp only [Char.isDigit, Bool.and_eq_true, decide_eq_true_eq] at h
    exact UInt32.le_iff_toNat_le.1 h.2
  unfold Char.toLower
  refine dif_neg fun hupper => ?_
  have hletter : 65 ≤ c.val.toNat := UInt32.le_iff_toNat_le.1 hupper.1
  omega

theorem takeSign_of_isDigits {ds : List Char} (h : IsDigits ds) : takeSign ds = (false, ds) := by
  obtain ⟨d, ds, rfl⟩ := List.exists_cons_of_ne_nil h.1
  have hd := h.2 d List.mem_cons_self
  unfold takeSign
  split
  · exact absurd hd (by simp_all)
  · exact absurd hd (by simp_all)
  · rfl

/-- Digits alone are a decimal without a fraction and an exponent. -/
theorem readUnsigned?_of_isDigits {ds : List Char} (h : IsDigits ds) (negative : Bool) :
    readUnsigned? negative ds = some (ofDecimal negative (Nat.ofDigitChars 10 ds 0) 0) := by
  have hwhole : ds.takeWhile Char.isDigit = ds := List.takeWhile_eq_self_iff.2 h.2
  have hrest : ds.dropWhile Char.isDigit = [] := List.dropWhile_eq_nil_iff.2 h.2
  unfold readUnsigned?
  dsimp only
  rw [hwhole, hrest]
  dsimp only
  rw [if_neg fun hnone => h.1 hnone.1, List.append_nil, digitsValue_eq]
  rfl

/-! ## Reading numerals -/

namespace Numeral

variable {cs : List Char} {n : Int} (h : Numeral cs n)

include h

/-- A numeral is a sign, which may be missing, and digits. -/
theorem exists_sign : ∃ negative ds, takeSign cs = (negative, ds) ∧ IsDigits ds ∧
    n = signed negative (Nat.ofDigitChars 10 ds 0) := by
  cases h with
  | plain hds => exact ⟨false, cs, takeSign_of_isDigits hds, hds, rfl⟩
  | plus hds => exact ⟨false, _, rfl, hds, rfl⟩
  | minus hds => exact ⟨true, _, rfl, hds, rfl⟩

theorem readInt?_eq : readInt? cs = if inRange n then some n else none := by
  obtain ⟨negative, ds, hsign, hds, rfl⟩ := h.exists_sign
  unfold readInt?
  rw [hsign]
  dsimp only
  rw [readDigits?_eq hds]
  rfl

theorem read?_eq : ∃ negative, n = signed negative n.natAbs ∧
    Binary64.read? cs = some (ofDecimal negative n.natAbs 0) := by
  obtain ⟨negative, ds, hsign, hds, rfl⟩ := h.exists_sign
  have habs : (signed negative (Nat.ofDigitChars 10 ds 0)).natAbs = Nat.ofDigitChars 10 ds 0 := by
    cases negative <;> simp [signed]
  have hlower : ds.map Char.toLower = ds :=
    (List.map_congr_left fun c hc => toLower_of_isDigit (hds.2 c hc)).trans (List.map_id' ds)
  -- a word in letters starts with one
  have hword : ∀ c cs', ¬ c.isDigit → String.ofList ds ≠ String.ofList (c :: cs') := by
    intro c cs' hc heq
    rw [String.ofList_inj] at heq
    exact hc (hds.2 c (heq ▸ List.mem_cons_self))
  refine ⟨negative, by rw [habs], ?_⟩
  unfold Binary64.read?
  rw [hsign, habs]
  dsimp only
  rw [hlower]
  split
  · rename_i heq
    exact absurd heq (hword 'i' _ (by decide))
  · rename_i heq
    exact absurd heq (hword 'i' _ (by decide))
  · rename_i heq
    exact absurd heq (hword 'n' _ (by decide))
  · exact readUnsigned?_of_isDigits hds negative

end Numeral

end Runbook
