import Mathlib.Algebra.Order.Floor.Semifield
import Mathlib.Data.Int.Log
import Mathlib.Data.Rat.Floor
import Mathlib.Tactic.FieldSimp
import Mathlib.Tactic.Linarith
import Mathlib.Tactic.Positivity
import Mathlib.Tactic.Ring
import ScriptEngine.Proofs.DecimalOrder

/-!
This module contains the rounding of rational numbers to so many digits, by any rule that looks at the sign and at the
first digit that is dropped. What is beyond that digit does not matter to the result.
-/

namespace ScriptEngine

/-- Whether a number is rounded away from zero, by its sign and by the first digit that is dropped. -/
structure Rounding where
  away (negative : Bool) (digit : Nat) : Bool
  /-- If the digit is a zero, the digits before it stay. -/
  zero (negative : Bool) : away negative 0 = false

namespace Rounding

/-- The integer next to a number on the way to zero. -/
def towardZero (q : ℚ) : ℤ := if 0 ≤ q then ⌊q⌋ else ⌈q⌉

/-- The number without what is below `10 ^ place`. -/
def truncate (place : ℤ) (q : ℚ) : ℚ := towardZero (q / 10 ^ place) * 10 ^ place

/-- The digits of a number down to a place, taken as one number. -/
def digitsTo (place : ℤ) (q : ℚ) : Nat := ⌊|q| / 10 ^ place⌋₊

/-- The place of the last of so many digits of a number, counted from its first digit that is not zero. -/
def lastPlace (precision : Nat) (q : ℚ) : ℤ := Int.log 10 |q| + 1 - precision

variable (rule : Rounding)

/-- What the rule makes of digits of which the last one is dropped. -/
def dropLast (negative : Bool) (digits : Nat) : Nat :=
  digits / 10 + if rule.away negative (digits % 10) then 1 else 0

/-- The integer that is left of digits and a sign. -/
def signed (negative : Bool) (digits : Nat) : ℤ :=
  if negative then -(rule.dropLast negative digits : ℤ) else rule.dropLast negative digits

/-- The number rounded to whole multiples of `10 ^ place`. -/
def toPlace (place : ℤ) (q : ℚ) : ℚ := rule.signed (q < 0) (digitsTo (place - 1) q) * 10 ^ place

/-- The number rounded to so many digits. -/
def toDigits (precision : Nat) (q : ℚ) : ℚ := rule.toPlace (lastPlace precision q) q

variable {rule : Rounding} {q : ℚ} {place lower : ℤ}

theorem ten_zpow_pos (place : ℤ) : (0 : ℚ) < 10 ^ place := by positivity

theorem zpow_eq_mul_of_le (h : lower ≤ place)
    : (10 : ℚ) ^ place = 10 ^ lower * ((10 ^ (place - lower).toNat : Nat) : ℚ) := by
  push_cast
  rw [← zpow_natCast, ← zpow_add₀ (by norm_num)]
  congr 1
  omega

theorem mul_ten_zpow_neg_iff : q * 10 ^ place < 0 ↔ q < 0 := by
  rw [← neg_pos, ← neg_mul, mul_pos_iff_of_pos_right (ten_zpow_pos place), neg_pos]

section Truncate

theorem towardZero_of_nonpos (h : q ≤ 0) : towardZero q = ⌈q⌉ := by
  unfold towardZero
  split
  . next hnonneg =>
    have hzero : q = 0 := le_antisymm h hnonneg
    rw [hzero, Int.floor_zero, Int.ceil_zero]
  . rfl

theorem towardZero_neg (q : ℚ) : towardZero (-q) = -towardZero q := by
  rcases le_total 0 q with h | h
  . rw [towardZero_of_nonpos (neg_nonpos.mpr h), Int.ceil_neg]
    unfold towardZero
    rw [if_pos h]
  . rw [towardZero_of_nonpos h, ← Int.floor_neg]
    exact if_pos (neg_nonneg.mpr h)

theorem abs_towardZero (q : ℚ) : |(towardZero q : ℚ)| = (⌊|q|⌋₊ : ℚ) := by
  have hnonneg {r : ℚ} (h : 0 ≤ r) : |(towardZero r : ℚ)| = (⌊|r|⌋₊ : ℚ) := by
    unfold towardZero
    rw [if_pos h, abs_of_nonneg h, natCast_floor_eq_intCast_floor h]
    exact abs_of_nonneg (Int.cast_nonneg (Int.floor_nonneg.mpr h))
  rcases le_total 0 q with h | h
  . exact hnonneg h
  . have hneg := hnonneg (neg_nonneg.mpr h)
    rwa [towardZero_neg, Int.cast_neg, abs_neg, abs_neg] at hneg

theorem abs_truncate (place : ℤ) (q : ℚ) : |truncate place q| = digitsTo place q * 10 ^ place := by
  unfold truncate digitsTo
  rw [abs_mul, abs_towardZero, abs_div, abs_of_pos (ten_zpow_pos place)]

theorem truncate_nonneg (h : 0 ≤ q) (place : ℤ) : 0 ≤ truncate place q := by
  have hdiv : 0 ≤ q / 10 ^ place := div_nonneg h (ten_zpow_pos place).le
  unfold truncate towardZero
  rw [if_pos hdiv]
  exact mul_nonneg (Int.cast_nonneg (Int.floor_nonneg.mpr hdiv)) (ten_zpow_pos place).le

theorem truncate_nonpos (h : q ≤ 0) (place : ℤ) : truncate place q ≤ 0 := by
  have hneg := truncate_nonneg (neg_nonneg.mpr h) place
  unfold truncate at hneg ⊢
  rwa [neg_div, towardZero_neg, Int.cast_neg, neg_mul, neg_nonneg] at hneg

/-- The digits down to a place begin with those down to a higher place. -/
theorem digitsTo_of_le (h : lower ≤ place) (q : ℚ)
    : digitsTo place q = digitsTo lower q / 10 ^ (place - lower).toNat := by
  unfold digitsTo
  rw [zpow_eq_mul_of_le h, ← div_div, Nat.floor_div_natCast]

/-- The digits of a whole number of units of a place. -/
theorem digitsTo_of_abs {n : Nat} (h : |q| = n * 10 ^ place) : digitsTo place q = n := by
  unfold digitsTo
  rw [h, mul_div_cancel_right₀ _ (ten_zpow_pos place).ne', Nat.floor_natCast]

theorem digitsTo_truncate (h : lower ≤ place) (q : ℚ) : digitsTo place (truncate lower q) = digitsTo place q := by
  rw [digitsTo_of_le h, digitsTo_of_le h, digitsTo_of_abs (abs_truncate lower q)]

theorem digitsTo_zero (place : ℤ) : digitsTo place 0 = 0 := by
  unfold digitsTo
  rw [abs_zero, zero_div, Nat.floor_zero]

end Truncate

section Signed

theorem dropLast_zero (rule : Rounding) (negative : Bool) : rule.dropLast negative 0 = 0 := by
  unfold dropLast
  rw [Nat.zero_mod, rule.zero]
  rfl

theorem dropLast_mul_ten (rule : Rounding) (negative : Bool) (n : Nat) : rule.dropLast negative (n * 10) = n := by
  unfold dropLast
  rw [Nat.mul_mod_left, rule.zero, Nat.mul_div_cancel _ (by decide)]
  rfl

theorem dropLast_le {digits bound : Nat} (negative : Bool) (h : digits < bound * 10)
    : rule.dropLast negative digits ≤ bound := by
  have hkept : digits / 10 < bound := Nat.div_lt_of_lt_mul (by omega)
  unfold dropLast
  split <;> omega

theorem natAbs_signed (rule : Rounding) (negative : Bool) (digits : Nat)
    : (rule.signed negative digits).natAbs = rule.dropLast negative digits := by
  cases negative with
  | false => rfl
  | true => exact Int.natAbs_neg _

/-- Whole multiples of the unit are their own digits and a zero. -/
theorem signed_mul_ten (rule : Rounding) (n : ℤ) : rule.signed (n < 0) (n.natAbs * 10) = n := by
  unfold signed
  rw [dropLast_mul_ten]
  split
  . next h =>
    have hneg : n < 0 := of_decide_eq_true h
    omega
  . next h =>
    have hnonneg : ¬n < 0 := fun hneg => h (decide_eq_true hneg)
    omega

/-- If there are no digits then the sign does not matter. -/
theorem signed_zero (rule : Rounding) (negative : Bool) : rule.signed negative 0 = 0 := by
  unfold signed
  rw [dropLast_zero]
  split <;> rfl

end Signed

/-- Rounding to a place gives the same if what is below a lower place is taken off before. -/
theorem toPlace_truncate (rule : Rounding) (h : lower < place) (q : ℚ)
    : rule.toPlace place (truncate lower q) = rule.toPlace place q := by
  have hdigits : digitsTo (place - 1) (truncate lower q) = digitsTo (place - 1) q := digitsTo_truncate (by omega) q
  unfold toPlace
  rw [hdigits]
  -- Taking digits off keeps the sign, unless nothing is left, and then it does not matter.
  by_cases hzero : digitsTo (place - 1) q = 0
  . rw [hzero, signed_zero, signed_zero]
  . have hsign : truncate lower q < 0 ↔ q < 0 := by
      constructor
      . intro hneg
        exact lt_of_not_ge fun hq => absurd (truncate_nonneg hq lower) (not_le.mpr hneg)
      . intro hneg
        apply lt_of_le_of_ne (truncate_nonpos hneg.le lower)
        intro htruncated
        rw [htruncated, digitsTo_zero] at hdigits
        exact hzero hdigits.symm
    rw [decide_eq_decide.mpr hsign]

/-- Whole multiples of the unit of a place stay as they are. -/
theorem toPlace_multiple (rule : Rounding) (n : ℤ) (h : place ≤ lower)
    : rule.toPlace place (n * 10 ^ lower) = n * 10 ^ lower := by
  have hplace := ten_zpow_pos place
  rw [zpow_eq_mul_of_le h, mul_comm ((10 : ℚ) ^ place), ← mul_assoc, ← Int.cast_natCast, ← Int.cast_mul]
  generalize n * ((10 ^ (lower - place).toNat : Nat) : ℤ) = units
  have habs : |(units : ℚ) * 10 ^ place| = ((units.natAbs * 10 : Nat) : ℚ) * 10 ^ (place - 1) := by
    rw [abs_mul, abs_of_pos hplace, zpow_sub_one₀ (by norm_num)]
    push_cast
    rw [Nat.cast_natAbs]
    push_cast
    field_simp
  have hsign : (units : ℚ) * 10 ^ place < 0 ↔ units < 0 := by
    rw [mul_ten_zpow_neg_iff, Int.cast_lt_zero]
  unfold toPlace
  rw [digitsTo_of_abs habs, decide_eq_decide.mpr hsign, signed_mul_ten]

/-- The first digit of a number stands at a place or above if the number is as large as the unit there. -/
theorem le_log_iff (hq : q ≠ 0) : place ≤ Int.log 10 |q| ↔ (10 : ℚ) ^ place ≤ |q| := by
  have hiff := Int.zpow_le_iff_le_log (show 1 < 10 by norm_num) (abs_pos.mpr hq) (x := place)
  rw [← hiff]
  norm_num

theorem log_lt_iff (hq : q ≠ 0) : Int.log 10 |q| < place ↔ |q| < (10 : ℚ) ^ place := by
  rw [← not_le, le_log_iff hq, not_le]

/-- The first digit stays where it is when digits after it are taken off. -/
theorem log_truncate (hq : q ≠ 0) (h : lower ≤ Int.log 10 |q|) : Int.log 10 |truncate lower q| = Int.log 10 |q| := by
  have hlower := ten_zpow_pos lower
  -- The unit of the first digit is a multiple of the lower one, so nothing is taken off that reaches below it.
  have hle : (10 : ℚ) ^ Int.log 10 |q| ≤ |truncate lower q| := by
    rw [abs_truncate, zpow_eq_mul_of_le h, mul_comm]
    apply mul_le_mul_of_nonneg_right _ hlower.le
    rw [Nat.cast_le]
    apply Nat.le_floor
    rw [le_div_iff₀ hlower, mul_comm, ← zpow_eq_mul_of_le h]
    exact (le_log_iff hq).mp le_rfl
  have hlt : |truncate lower q| < (10 : ℚ) ^ (Int.log 10 |q| + 1) := by
    apply lt_of_le_of_lt _ ((log_lt_iff hq).mp (lt_add_one _))
    rw [abs_truncate, ← le_div_iff₀ hlower]
    exact Nat.floor_le (div_nonneg (abs_nonneg q) hlower.le)
  have htruncated : truncate lower q ≠ 0 := abs_pos.mp (lt_of_lt_of_le (ten_zpow_pos _) hle)
  apply le_antisymm
  . exact Int.lt_add_one_iff.mp ((log_lt_iff htruncated).mpr hlt)
  . exact (le_log_iff htruncated).mpr hle

theorem toPlace_zero (rule : Rounding) (place : ℤ) : rule.toPlace place 0 = 0 := by
  unfold toPlace
  rw [digitsTo_zero, signed_zero, Int.cast_zero, zero_mul]

/-- Taking off what is below the last digit that is kept, and more than that, changes nothing in the rounding. -/
theorem toDigits_truncate {precision : Nat} (rule : Rounding) (h : q ≠ 0 → lower < lastPlace precision q)
    : rule.toDigits precision (truncate lower q) = rule.toDigits precision q := by
  by_cases hq : q = 0
  . have hzero : truncate lower 0 = 0 := le_antisymm (truncate_nonpos le_rfl lower) (truncate_nonneg le_rfl lower)
    rw [hq, hzero]
  . have hlower := h hq
    have hlog : lower ≤ Int.log 10 |q| := by
      unfold lastPlace at hlower
      omega
    have hplace : lastPlace precision (truncate lower q) = lastPlace precision q := by
      unfold lastPlace
      rw [log_truncate hq hlog]
    unfold toDigits
    rw [hplace, toPlace_truncate rule hlower]

/-- A number that has no more than so many digits stays as it is. -/
theorem toDigits_of_short {precision : Nat} (rule : Rounding) (n : ℤ) (place : ℤ) (h : |n| < 10 ^ precision)
    : rule.toDigits precision (n * 10 ^ place) = n * 10 ^ place := by
  unfold toDigits
  by_cases hn : n = 0
  . rw [hn, Int.cast_zero, zero_mul, toPlace_zero]
  . apply toPlace_multiple
    have hnonzero : (n : ℚ) * 10 ^ place ≠ 0 := mul_ne_zero (Int.cast_ne_zero.mpr hn) (ten_zpow_pos place).ne'
    have hlog : Int.log 10 |(n : ℚ) * 10 ^ place| < (precision : ℤ) + place := by
      rw [log_lt_iff hnonzero, abs_mul, abs_of_pos (ten_zpow_pos place), zpow_add₀ (by norm_num), zpow_natCast]
      apply mul_lt_mul_of_pos_right _ (ten_zpow_pos place)
      exact_mod_cast h
    unfold lastPlace
    omega

section Shift

theorem log_shift (hq : q ≠ 0) (k : ℤ) : Int.log 10 |q * 10 ^ k| = Int.log 10 |q| + k := by
  have hk := ten_zpow_pos k
  have hshifted : q * 10 ^ k ≠ 0 := mul_ne_zero hq hk.ne'
  have habs : |q * 10 ^ k| = |q| * 10 ^ k := by rw [abs_mul, abs_of_pos hk]
  apply le_antisymm
  . apply Int.lt_add_one_iff.mp
    rw [log_lt_iff hshifted, habs, add_right_comm, zpow_add₀ (by norm_num)]
    exact mul_lt_mul_of_pos_right ((log_lt_iff hq).mp (lt_add_one _)) hk
  . rw [le_log_iff hshifted, habs, zpow_add₀ (by norm_num)]
    exact mul_le_mul_of_nonneg_right ((le_log_iff hq).mp le_rfl) hk.le

theorem toPlace_shift (rule : Rounding) (place : ℤ) (q : ℚ) (k : ℤ)
    : rule.toPlace (place + k) (q * 10 ^ k) = rule.toPlace place q * 10 ^ k := by
  have hk := ten_zpow_pos k
  have hdigits : digitsTo (place + k - 1) (q * 10 ^ k) = digitsTo (place - 1) q := by
    unfold digitsTo
    rw [abs_mul, abs_of_pos hk, show place + k - 1 = place - 1 + k by omega, zpow_add₀ (by norm_num),
      mul_div_mul_right _ _ hk.ne']
  unfold toPlace
  rw [hdigits, decide_eq_decide.mpr mul_ten_zpow_neg_iff, zpow_add₀ (by norm_num), ← mul_assoc]

/-- A number that is moved by some places is rounded to the same digits. -/
theorem toDigits_shift (rule : Rounding) (precision : Nat) (q : ℚ) (k : ℤ)
    : rule.toDigits precision (q * 10 ^ k) = rule.toDigits precision q * 10 ^ k := by
  unfold toDigits
  by_cases hq : q = 0
  . rw [hq, zero_mul, toPlace_zero, zero_mul]
  . have hplace : lastPlace precision (q * 10 ^ k) = lastPlace precision q + k := by
      unfold lastPlace
      rw [log_shift hq]
      omega
    rw [hplace, toPlace_shift]

end Shift

/-- With the digit after the last one that is kept, a number has one digit more. -/
theorem digitsTo_lastPlace_lt (precision : Nat) (q : ℚ)
    : digitsTo (lastPlace precision q - 1) q < 10 ^ precision * 10 := by
  have hplace := ten_zpow_pos (lastPlace precision q - 1)
  have hlt : |q| < (10 : ℚ) ^ (Int.log 10 |q| + 1) := by exact_mod_cast Int.lt_zpow_succ_log_self (by norm_num) |q|
  unfold digitsTo
  rw [Nat.floor_lt (div_nonneg (abs_nonneg q) hplace.le), div_lt_iff₀ hplace]
  apply hlt.trans_eq
  push_cast
  rw [← pow_succ, ← zpow_natCast, ← zpow_add₀ (by norm_num)]
  congr 1
  unfold lastPlace
  push_cast
  omega

/-- A number that was rounded stays as it is. It may have one digit too many, but this is a zero. -/
theorem toDigits_toDigits {precision : Nat} (rule : Rounding) (h : 0 < precision) (q : ℚ)
    : rule.toDigits precision (rule.toDigits precision q) = rule.toDigits precision q := by
  let n := rule.signed (q < 0) (digitsTo (lastPlace precision q - 1) q)
  have hle : |n| ≤ 10 ^ precision := by
    have hdigits : rule.dropLast (q < 0) (digitsTo (lastPlace precision q - 1) q) ≤ 10 ^ precision :=
      dropLast_le (q < 0) (digitsTo_lastPlace_lt precision q)
    rw [Int.abs_eq_natAbs, natAbs_signed]
    exact_mod_cast hdigits
  have hrounded : rule.toDigits precision q = n * 10 ^ lastPlace precision q := rfl
  rw [hrounded]
  generalize n = n at hle
  generalize lastPlace precision q = place
  rcases lt_or_eq_of_le hle with hlt | heq
  . exact toDigits_of_short rule n place hlt
  . -- All digits were nines: what is left is a one and zeros.
    have hone : |n.sign| < 10 ^ precision := by
      apply lt_of_le_of_lt _ (one_lt_pow₀ (by norm_num) h.ne')
      rcases Int.sign_trichotomy n with hsign | hsign | hsign <;> rw [hsign] <;> decide
    have hn : (n : ℚ) = n.sign * 10 ^ precision := by
      have hsign := Int.sign_mul_abs n
      rw [heq] at hsign
      exact_mod_cast hsign.symm
    have hvalue : (n : ℚ) * 10 ^ place = n.sign * 10 ^ ((precision : ℤ) + place) := by
      rw [zpow_add₀ (by norm_num), zpow_natCast, ← mul_assoc, ← hn]
    rw [hvalue]
    exact toDigits_of_short rule n.sign _ hone

/-- The quotient of integers without its fraction. -/
theorem towardZero_div (m n : ℤ) : towardZero ((m : ℚ) / n) = Int.tdiv m n := by
  have hnonneg {m : ℤ} (n : Nat) (hm : 0 ≤ m) : towardZero ((m : ℚ) / (n : ℤ)) = Int.tdiv m n := by
    have hdiv : (0 : ℚ) ≤ (m : ℚ) / (n : ℤ) := div_nonneg (Int.cast_nonneg hm) (Int.cast_nonneg n.cast_nonneg)
    unfold towardZero
    rw [if_pos hdiv, Int.tdiv_eq_ediv_of_nonneg hm, Int.cast_natCast]
    exact Rat.floor_intCast_div_natCast m n
  have hpos (m : ℤ) (n : Nat) : towardZero ((m : ℚ) / (n : ℤ)) = Int.tdiv m n := by
    rcases le_total 0 m with hm | hm
    . exact hnonneg n hm
    . have hneg := hnonneg n (neg_nonneg.mpr hm)
      rw [Int.cast_neg, neg_div, towardZero_neg, Int.neg_tdiv] at hneg
      exact neg_injective hneg
  rcases Int.eq_nat_or_neg n with ⟨k, rfl | rfl⟩
  . exact hpos m k
  . rw [Int.cast_neg, div_neg, towardZero_neg, Int.tdiv_neg, hpos]

end Rounding

namespace Decimal

variable {x : Decimal}

theorem value_zero_iff : x.value = 0 ↔ x.mantissa = 0 := by
  unfold value
  rw [mul_eq_zero, or_iff_left (scale_pos x.scale).ne', Int.cast_eq_zero]

theorem abs_value_bounds (h : x.mantissa ≠ 0)
    : (10 : ℚ) ^ (x.lead - 1) ≤ |x.value| ∧ |x.value| < (10 : ℚ) ^ x.lead := by
  rcases lt_or_gt_of_ne h with hneg | hpos
  . have hbounds := value_bounds (x := x.neg) (Int.neg_pos_of_neg hneg)
    rwa [lead_neg, value_neg, ← abs_of_neg (value_neg_iff.mpr hneg)] at hbounds
  . rw [abs_of_pos (value_pos_iff.mpr hpos)]
    exact value_bounds hpos

theorem log_value (h : x.mantissa ≠ 0) : Int.log 10 |x.value| = x.lead - 1 := by
  have hvalue := mt value_zero_iff.mp h
  have hlow := (Rounding.le_log_iff hvalue).mpr (abs_value_bounds h).1
  have hhigh := (Rounding.log_lt_iff hvalue).mpr (abs_value_bounds h).2
  omega

theorem digits_le_iff {precision : Nat} (h : 0 < precision) : x.digits ≤ precision ↔ |x.mantissa| < 10 ^ precision := by
  have hiff := Nat.length_toDigits_le_iff (n := x.mantissa.natAbs) (show 1 < 10 by norm_num) h
  rw [Int.abs_eq_natAbs]
  exact_mod_cast hiff

theorem digits_pos (x : Decimal) : 0 < x.digits := Nat.length_toDigits_pos

/-- The digits of a number down to a place are those of its mantissa without the last ones. -/
theorem digitsTo_value (x : Decimal) (extra : Nat)
    : Rounding.digitsTo (extra - x.scale) x.value = x.mantissa.natAbs / tenPow extra := by
  have hdiv : |x.value| / 10 ^ ((extra : ℤ) - x.scale) = (x.mantissa.natAbs : ℚ) / (tenPow extra : ℚ) := by
    unfold value
    rw [abs_mul, abs_of_pos (scale_pos x.scale), tenPow_cast, sub_eq_add_neg, zpow_add₀ (by norm_num), zpow_natCast,
      mul_div_mul_right _ _ (scale_pos x.scale).ne', Nat.cast_natAbs, Int.cast_abs]
  unfold Rounding.digitsTo
  rw [hdiv, Nat.floor_div_natCast, Nat.floor_natCast]

/-- Rounding a number by the digits of its mantissa is rounding what it stands for. -/
theorem toDigits_value (rule : Rounding) {precision : Nat} (h : precision < x.digits)
    : rule.toDigits precision x.value =
        rule.signed (x.mantissa < 0) (x.mantissa.natAbs / tenPow (x.digits - precision - 1)) *
          10 ^ (((x.digits - precision : Nat) : ℤ) - x.scale) := by
  unfold Rounding.toDigits
  by_cases hm : x.mantissa = 0
  . have hdigits : x.mantissa.natAbs / tenPow (x.digits - precision - 1) = 0 := by
      rw [hm, Int.natAbs_zero, Nat.zero_div]
    rw [value_zero_iff.mpr hm, Rounding.toPlace_zero, hdigits, Rounding.signed_zero, Int.cast_zero, zero_mul]
  . have hplace : Rounding.lastPlace precision x.value = ((x.digits - precision : Nat) : ℤ) - x.scale := by
      unfold Rounding.lastPlace
      rw [log_value hm]
      unfold lead
      omega
    have hnext : ((x.digits - precision : Nat) : ℤ) - x.scale - 1 =
        ((x.digits - precision - 1 : Nat) : ℤ) - x.scale := by
      omega
    unfold Rounding.toPlace
    rw [hplace, hnext, digitsTo_value, decide_eq_decide.mpr value_neg_iff]

end Decimal

end ScriptEngine
