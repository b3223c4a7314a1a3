import Mathlib.Algebra.Order.Field.Power
import Mathlib.Data.Rat.Cast.Order
import Mathlib.Tactic.Linarith
import Mathlib.Tactic.NormNum
import Mathlib.Tactic.Positivity
import ScriptEngine.Number.Decimal.Text

/-!
This module contains the exactness of the order of decimal numbers: whatever the scales of two
numbers are, they are ordered as the rational numbers that they stand for.
-/

namespace ScriptEngine

namespace Decimal

/-- The rational number that a decimal number stands for. -/
def value (x : Decimal) : ℚ := x.mantissa * (10 : ℚ) ^ (-x.scale)

variable {a b x : Decimal}

theorem value_ofWord (i : Int64) : (ofWord i).value = i.toInt := by
  simp [value, ofWord, ofInt]

theorem value_neg : x.neg.value = -x.value := by
  simp [value, neg]

theorem lead_neg : x.neg.lead = x.lead := by
  simp [lead, digits, neg]

theorem scale_pos (scale : Int) : (0 : ℚ) < 10 ^ (-scale) := by positivity

theorem value_pos_iff : 0 < x.value ↔ 0 < x.mantissa := by
  unfold value
  rw [mul_pos_iff_of_pos_right (scale_pos x.scale), Int.cast_pos]

theorem value_neg_iff : x.value < 0 ↔ x.mantissa < 0 := by
  have h := @value_pos_iff x.neg
  rw [value_neg, neg_pos] at h
  rw [h]
  show 0 < -x.mantissa ↔ _
  omega

theorem tenPow_cast (n : Nat) : ((tenPow n : Nat) : ℚ) = 10 ^ n := by
  show (((10 : Nat) ^ n : Nat) : ℚ) = _
  push_cast
  rfl

theorem value_eq_mantissaAt {scale : Int} (h : x.scale ≤ scale)
    : x.value = x.mantissaAt scale * (10 : ℚ) ^ (-scale) := by
  have hpow : ((tenPow (scale - x.scale).toNat : Nat) : ℚ) = 10 ^ (scale - x.scale) := by
    rw [tenPow_cast, ← zpow_natCast, Int.toNat_of_nonneg (by omega)]
  unfold mantissaAt value
  rw [if_pos h]
  push_cast
  rw [hpow, mul_assoc, ← zpow_add₀ (by norm_num)]
  congr 2
  omega

theorem alignedOrder_eq (a b : Decimal) : a.alignedOrder b = compare a.value b.value := by
  have hmono : StrictMono fun m : Int => (m : ℚ) * 10 ^ (-max a.scale b.scale) := by
    intro m n h
    have h : (m : ℚ) < n := Int.cast_lt.mpr h
    exact mul_lt_mul_of_pos_right h (scale_pos _)
  rw [value_eq_mantissaAt (le_max_left a.scale b.scale), value_eq_mantissaAt (le_max_right a.scale b.scale),
    ← cmp_eq_compare]
  exact (cmp_eq_compare _ _).symm.trans (hmono.cmp_map_eq _ _).symm

theorem digitCount_bounds {n : Nat} (h : 0 < n) : 10 ^ (digitCount n - 1) ≤ n ∧ n < 10 ^ digitCount n := by
  have hcount : 0 < digitCount n := Nat.length_toDigits_pos
  constructor
  . rcases Nat.eq_zero_or_pos (digitCount n - 1) with hone | hmore
    . rw [hone]
      exact h
    . have hle := Nat.length_toDigits_le_iff (n := n) (show 1 < 10 by omega) hmore
      change digitCount n ≤ digitCount n - 1 ↔ _ at hle
      omega
  . exact (Nat.length_toDigits_le_iff (by omega) hcount).mp (Nat.le_refl _)

theorem value_bounds (h : 0 < x.mantissa)
    : (10 : ℚ) ^ (x.lead - 1) ≤ x.value ∧ x.value < (10 : ℚ) ^ x.lead := by
  have hcount : 0 < x.digits := Nat.length_toDigits_pos
  have hmantissa : (x.mantissa : ℚ) = (x.mantissa.natAbs : ℚ) := by
    rw [Nat.cast_natAbs, abs_of_pos h]
  have hlow : (10 : ℚ) ^ (x.lead - 1) = ((10 ^ (x.digits - 1) : Nat) : ℚ) * 10 ^ (-x.scale) := by
    push_cast
    rw [← zpow_natCast, ← zpow_add₀ (by norm_num)]
    congr 1
    unfold lead
    omega
  have hhigh : (10 : ℚ) ^ x.lead = ((10 ^ x.digits : Nat) : ℚ) * 10 ^ (-x.scale) := by
    push_cast
    rw [← zpow_natCast, ← zpow_add₀ (by norm_num)]
    rfl
  -- Both bounds are those of the mantissa, moved by the scale.
  rcases digitCount_bounds (n := x.mantissa.natAbs) (by omega) with ⟨hle, hlt⟩
  rw [hlow, hhigh, value, hmantissa]
  constructor
  . exact mul_le_mul_of_nonneg_right (Nat.cast_le.mpr hle) (scale_pos _).le
  . exact mul_lt_mul_of_pos_right (Nat.cast_lt.mpr hlt) (scale_pos _)

theorem value_lt_of_lead_lt (ha : 0 < a.mantissa) (hb : 0 < b.mantissa) (h : a.lead < b.lead)
    : a.value < b.value :=
  calc
    a.value < (10 : ℚ) ^ a.lead := (value_bounds ha).2
    _ ≤ (10 : ℚ) ^ (b.lead - 1) := zpow_le_zpow_right₀ (by norm_num) (by omega)
    _ ≤ b.value := (value_bounds hb).1

theorem compare_lead (ha : 0 < a.mantissa) (hb : 0 < b.mantissa) (h : a.lead ≠ b.lead)
    : compare a.lead b.lead = compare a.value b.value := by
  rcases Int.lt_or_gt_of_ne h with h | h
  . rw [compare_lt_iff_lt.mpr h, compare_lt_iff_lt.mpr (value_lt_of_lead_lt ha hb h)]
  . rw [compare_gt_iff_gt.mpr h, compare_gt_iff_gt.mpr (value_lt_of_lead_lt hb ha h)]

/-- Negative numbers have the order of the negated ones, the other way around. -/
theorem compare_lead_of_neg (ha : a.mantissa < 0) (hb : b.mantissa < 0) (h : a.lead ≠ b.lead)
    : compare b.lead a.lead = compare a.value b.value := by
  have hlead : b.neg.lead ≠ a.neg.lead := by
    rw [lead_neg, lead_neg]
    exact Ne.symm h
  have hneg := compare_lead (Int.neg_pos_of_neg hb) (Int.neg_pos_of_neg ha) hlead
  rw [lead_neg, lead_neg, value_neg, value_neg] at hneg
  rw [hneg, ← cmp_eq_compare, ← cmp_eq_compare]
  exact StrictAnti.cmp_map_eq (fun _ _ => neg_lt_neg) b.value a.value

theorem value_lt_of_sign_lt (h : a.mantissa.sign < b.mantissa.sign) : a.value < b.value := by
  have hcases : a.mantissa < 0 ∧ 0 ≤ b.mantissa ∨ a.mantissa ≤ 0 ∧ 0 < b.mantissa := by
    rcases Int.lt_trichotomy a.mantissa 0 with ha | ha | ha
    . rw [Int.sign_eq_neg_one_of_neg ha] at h
      have hb : ¬b.mantissa < 0 := by
        intro hb
        rw [Int.sign_eq_neg_one_of_neg hb] at h
        omega
      omega
    . rw [ha, Int.sign_zero, Int.sign_pos_iff] at h
      omega
    . rw [Int.sign_eq_one_of_pos ha] at h
      have hb := Int.sign_trichotomy b.mantissa
      omega
  rcases hcases with ⟨ha, hb⟩ | ⟨ha, hb⟩
  . have ha := value_neg_iff.mpr ha
    have hb := value_neg_iff.not.mpr (Int.not_lt.mpr hb)
    linarith
  . have ha := value_pos_iff.not.mpr (Int.not_lt.mpr ha)
    have hb := value_pos_iff.mpr hb
    linarith

/-- The order of decimal numbers is that of the numbers that they stand for. -/
theorem order_eq (a b : Decimal) : a.order b = compare a.value b.value := by
  unfold order
  split
  . next hsign =>
    have hsign : a.mantissa.sign = b.mantissa.sign := compare_eq_iff_eq.mp hsign
    split
    . next hzero =>
      have ha : a.mantissa = 0 := beq_iff_eq.mp hzero
      have hb : b.mantissa = 0 := by rwa [ha, Int.sign_zero, eq_comm, Int.sign_eq_zero_iff_zero] at hsign
      have hvalue : a.value = b.value := by simp [value, ha, hb]
      exact (compare_eq_iff_eq.mpr hvalue).symm
    . next hzero =>
      have hzero : a.mantissa ≠ 0 := fun ha => hzero (beq_iff_eq.mpr ha)
      split
      . exact alignedOrder_eq a b
      . next hlead =>
        split
        . next ha =>
          have hb : b.mantissa < 0 := by
            rwa [Int.sign_eq_neg_one_of_neg ha, eq_comm, Int.sign_eq_neg_one_iff_neg] at hsign
          exact compare_lead_of_neg ha hb hlead
        . next ha =>
          have ha : 0 < a.mantissa := by omega
          have hb : 0 < b.mantissa := by
            rwa [Int.sign_eq_one_of_pos ha, eq_comm, Int.sign_eq_one_iff_pos] at hsign
          exact compare_lead ha hb hlead
  . next hsign =>
    cases hcmp : compare a.mantissa.sign b.mantissa.sign with
    | lt => exact (compare_lt_iff_lt.mpr (value_lt_of_sign_lt (compare_lt_iff_lt.mp hcmp))).symm
    | eq => exact absurd hcmp hsign
    | gt => exact (compare_gt_iff_gt.mpr (value_lt_of_sign_lt (compare_gt_iff_gt.mp hcmp))).symm

end Decimal

end ScriptEngine
