import ScriptEngine.Engine.Machine
import ScriptEngine.Engine.Setup
import ScriptEngine.Proofs.Numbers
import ScriptEngine.Proofs.Rounding
import ScriptEngine.Proofs.Words

/-!
This module contains the division of decimal numbers: whatever the numbers of digits are, enough places are formed
that the quotient is rounded as the exact one is. This holds over every arithmetic that keeps values and rounds by one
rule. Only the scale of a quotient may be too large, and then it wraps around.
-/

namespace ScriptEngine

/-- A positive number is rounded up from a five on. A negative one is cut off. -/
def Rounding.upFromFive : Rounding where
  away negative digit := !negative && 5 ≤ digit
  zero negative := by cases negative <;> rfl

/-- Every number is cut off. -/
def Rounding.never : Rounding := ⟨fun _ _ => false, fun _ => rfl⟩

namespace Decimal

variable {a b x : Decimal} {precision : Nat}

/--
What is relied on in an arithmetic of decimal numbers: it counts the digits of mantissas, zeros at the end are taken
off and places are added without a change of the value, and from a longer number the first digits are kept, where the
sign and the first digit that is dropped decide about the last of them.
-/
structure Arithmetic.Lawful (arith : Arithmetic) (rule : Rounding) : Prop where
  digits (x : Decimal) : arith.digits x = x.digits
  value_normalized (x : Decimal) : (arith.normalized x).value = x.value
  value_withScale {x : Decimal} {scale : Int} (h : x.scale ≤ scale) : (arith.withScale x scale).value = x.value
  value_cut {x : Decimal} {precision : Nat} (hprecision : 0 < precision) (h : precision < x.digits)
    : (arith.cut x precision).value =
        rule.signed (x.mantissa < 0) (x.mantissa.natAbs / tenPow (x.digits - precision - 1)) *
          10 ^ (((x.digits - precision : Nat) : ℤ) - x.scale)

section Standard

theorem value_withScale {scale : Int} (h : x.scale ≤ scale) : (x.withScale scale).value = x.value :=
  (value_eq_mantissaAt h).symm

theorem value_shift (mantissa scale : Int)
    : (⟨mantissa * 10, scale⟩ : Decimal).value = (⟨mantissa, scale - 1⟩ : Decimal).value := by
  unfold value
  show ((mantissa * 10 : ℤ) : ℚ) * 10 ^ (-scale) = mantissa * 10 ^ (-(scale - 1))
  rw [neg_sub, sub_eq_add_neg, zpow_add₀ (by norm_num)]
  push_cast
  ring

theorem value_normalized_go (fuel : Nat) (x : Decimal) : (normalized.go fuel x).value = x.value := by
  induction fuel generalizing x with
  | zero => rfl
  | succ fuel ih =>
    unfold normalized.go
    split
    . next hzero =>
      have hzero : Int.tmod x.mantissa 10 = 0 := beq_iff_eq.mp hzero
      have hmantissa : Int.tdiv x.mantissa 10 * 10 = x.mantissa := by
        have hsplit := Int.tdiv_mul_add_tmod x.mantissa 10
        omega
      rw [ih, ← value_shift, hmantissa]
    . rfl

theorem value_normalized (x : Decimal) : x.normalized.value = x.value := by
  unfold normalized
  split
  . next hzero =>
    rw [value_zero_iff.mpr hzero]
    exact value_zero_iff.mpr rfl
  . exact value_normalized_go x.digits x

/-- The first digit that is dropped is never above zero in a negative number, so that nothing is added there. -/
theorem cut_mantissa (m : ℤ) (unit : Nat)
    : (if 5 ≤ Int.tdiv m unit - 10 * Int.tdiv m (10 * unit : Nat) then Int.tdiv m (10 * unit : Nat) + 1
        else Int.tdiv m (10 * unit : Nat)) =
        Rounding.upFromFive.signed (m < 0) (m.natAbs / unit) := by
  have hkept (n : Nat) : n / (10 * unit) = n / unit / 10 := by rw [Nat.div_div_eq_div_mul, Nat.mul_comm]
  have hdigit (n : Nat) : n / unit = 10 * (n / unit / 10) + n / unit % 10 := (Nat.div_add_mod _ _).symm
  rcases Int.eq_nat_or_neg m with ⟨n, rfl | rfl⟩
  . have hsign : decide ((n : ℤ) < 0) = false := decide_eq_false (by omega)
    have hn := hdigit n
    rw [← Int.ofNat_tdiv, ← Int.ofNat_tdiv, hkept, hsign, Int.natAbs_natCast]
    unfold Rounding.signed Rounding.dropLast Rounding.upFromFive
    simp only [Bool.false_eq_true, if_false, Bool.not_false, Bool.true_and, decide_eq_true_eq]
    split <;> split <;> omega
  . have hsigned (negative : Bool) (h : negative = true ∨ n = 0)
        : Rounding.upFromFive.signed negative (n / unit) = -((n / unit / 10 : Nat) : ℤ) := by
      rcases h with rfl | rfl
      . rfl
      . rw [Nat.zero_div, Rounding.signed_zero]
        rfl
    have hn := hdigit n
    rw [Int.neg_tdiv, Int.neg_tdiv, ← Int.ofNat_tdiv, ← Int.ofNat_tdiv, hkept, Int.natAbs_neg, Int.natAbs_natCast,
      hsigned, if_neg (by omega)]
    rw [decide_eq_true_eq]
    omega

theorem arithmetic_lawful : arithmetic.Lawful .upFromFive where
  digits _ := rfl
  value_normalized := value_normalized
  value_withScale := value_withScale
  value_cut {x precision} _ h := by
    have hextra : x.digits - precision = x.digits - precision - 1 + 1 := by omega
    have hten : tenPow (x.digits - precision) = 10 * tenPow (x.digits - precision - 1) := by
      rw [hextra, tenPow_succ, Nat.mul_comm]
      rfl
    have hscale : -(x.scale - ((x.digits - precision : Nat) : ℤ)) = ((x.digits - precision : Nat) : ℤ) - x.scale := by
      omega
    rw [← cut_mantissa, ← hten, ← hscale]
    rfl

end Standard

namespace Arithmetic

variable {arith : Arithmetic} {rule : Rounding}

/-- The dividend gets no more places than can be counted. -/
def HasPlaces (arith : Arithmetic) (precision : Nat) (a b : Decimal) : Prop :=
  (precision : Int) + arith.digits b - arith.digits a + 2 ≤ mostPlaces

/-- The scale of the quotient with the places that are formed. -/
def quotientScale (arith : Arithmetic) (precision : Nat) (a b : Decimal) : Int :=
  a.scale - b.scale + arith.divPlaces precision a b

/-- The scale of the quotient is a word, so that it does not wrap around. -/
def ScaleFits (arith : Arithmetic) (precision : Nat) (a b : Decimal) : Prop :=
  Word.least ≤ arith.quotientScale precision a b ∧ arith.quotientScale precision a b ≤ Word.greatest

/-- The quotient can be formed as it is. -/
def Divides (arith : Arithmetic) (precision : Nat) (a b : Decimal) : Prop :=
  arith.HasPlaces precision a b ∧ arith.ScaleFits precision a b

/-- By how many places the quotient is moved when its scale wraps around. -/
def moved (arith : Arithmetic) (precision : Nat) (a b : Decimal) : Int :=
  arith.quotientScale precision a b - (arith.longQuotient precision a b).scale

theorem scale_longQuotient (arith : Arithmetic) (precision : Nat) (a b : Decimal)
    : (arith.longQuotient precision a b).scale = (Int64.ofInt (arith.quotientScale precision a b)).toInt := by
  unfold quotientScale
  rw [Int64.ofInt_add, Int64.ofInt_sub, Int64.ofInt_eq_ofNat]
  rfl

theorem moved_of_fits (h : arith.ScaleFits precision a b) : arith.moved precision a b = 0 := by
  unfold moved
  rw [scale_longQuotient, Word.toInt_ofInt h.1 h.2, sub_self]

/-- A scale wraps around by whole turns of a word. -/
theorem dvd_moved (arith : Arithmetic) (precision : Nat) (a b : Decimal) : 2 ^ 64 ∣ arith.moved precision a b := by
  unfold moved
  rw [scale_longQuotient, Int64.toInt_ofInt]
  exact Int.dvd_self_sub_bmod

theorem value_longQuotient (arith : Arithmetic) (precision : Nat) (a b : Decimal)
    : (arith.longQuotient precision a b).value =
        Rounding.truncate (-arith.quotientScale precision a b) (a.value / b.value) *
          10 ^ arith.moved precision a b := by
  have hscale : (10 : ℚ) ^ (-arith.quotientScale precision a b) =
      10 ^ (-a.scale) / 10 ^ (-b.scale) / 10 ^ arith.divPlaces precision a b := by
    unfold quotientScale
    rw [← zpow_sub₀ (by norm_num), ← zpow_natCast, ← zpow_sub₀ (by norm_num)]
    congr 1
    omega
  have hdiv : a.value / b.value / 10 ^ (-arith.quotientScale precision a b) =
      ((a.mantissa * tenPow (arith.divPlaces precision a b) : ℤ) : ℚ) / b.mantissa := by
    have ha := (scale_pos a.scale).ne'
    have hb := (scale_pos b.scale).ne'
    rw [hscale]
    unfold value
    push_cast
    rw [tenPow_cast]
    field_simp
  have hmoved : -arith.quotientScale precision a b + arith.moved precision a b =
      -(arith.longQuotient precision a b).scale := by
    unfold moved
    omega
  unfold Rounding.truncate
  rw [hdiv, Rounding.towardZero_div, mul_assoc, ← zpow_add₀ (by norm_num), hmoved]
  rfl

/-- The places that are formed go on after the last digit that is kept: there is one more, and another one to spare. -/
theorem quotientScale_lt (h : arith.Lawful rule) (hplaces : arith.HasPlaces precision a b) (ha : a.mantissa ≠ 0)
    (hb : b.mantissa ≠ 0)
    : -arith.quotientScale precision a b < Rounding.lastPlace precision (a.value / b.value) := by
  -- The numbers of digits tell where the quotient begins up to one place; the other guard digit is for that.
  have hfirst : a.lead - 1 - b.lead ≤ Int.log 10 |a.value / b.value| := by
    have ha' := mt value_zero_iff.mp ha
    have hb' := mt value_zero_iff.mp hb
    rw [Rounding.le_log_iff (div_ne_zero ha' hb'), abs_div, zpow_sub₀ (by norm_num)]
    exact div_le_div₀ (abs_nonneg _) (abs_value_bounds ha).1 (abs_pos.mpr hb') (abs_value_bounds hb).2.le
  have hcounted : arith.divPlaces precision a b = ((precision : Int) + arith.digits b - arith.digits a + 2).toNat := by
    unfold HasPlaces at hplaces
    exact Nat.min_eq_left (by omega)
  unfold quotientScale Rounding.lastPlace
  rw [hcounted, h.digits, h.digits]
  unfold lead at hfirst
  omega

/-- What the quotient has after the places that are formed does not matter to the rounding. -/
theorem toDigits_longQuotient (h : arith.Lawful rule) (hplaces : arith.HasPlaces precision a b) (hb : b.value ≠ 0)
    : rule.toDigits precision (arith.longQuotient precision a b).value =
        rule.toDigits precision (a.value / b.value) * 10 ^ arith.moved precision a b := by
  rw [value_longQuotient, Rounding.toDigits_shift, Rounding.toDigits_truncate]
  intro hquotient
  apply quotientScale_lt h hplaces
  . intro ha
    rw [value_zero_iff.mpr ha, zero_div] at hquotient
    exact hquotient rfl
  . exact mt value_zero_iff.mpr hb

theorem value_cut_eq_toDigits (h : arith.Lawful rule) (hprecision : 0 < precision) (hlong : precision < x.digits)
    : (arith.cut x precision).value = rule.toDigits precision x.value := by
  rw [h.value_cut hprecision hlong, toDigits_value rule hlong]

theorem value_round (h : arith.Lawful rule) (hprecision : 0 < precision) (x : Decimal)
    : (arith.round precision x).value = rule.toDigits precision x.value := by
  unfold round
  rw [h.digits]
  split
  . next hlong => exact value_cut_eq_toDigits h hprecision hlong
  . next hlong =>
    have hshort := (digits_le_iff hprecision).mp (Nat.not_lt.mp hlong)
    exact (rule.toDigits_of_short x.mantissa (-x.scale) hshort).symm

theorem value_nonnegativeScale (h : arith.Lawful rule) (x : Decimal) : (arith.nonnegativeScale x).value = x.value := by
  unfold nonnegativeScale
  split
  . exact h.value_withScale (by omega)
  . rfl

/-- The digits of the quotient are those of the exact one, rounded. -/
theorem value_div (h : arith.Lawful rule) (hprecision : 0 < precision) (hplaces : arith.HasPlaces precision a b)
    (hb : b.value ≠ 0)
    : (arith.div precision a b).value =
        rule.toDigits precision (a.value / b.value) * 10 ^ arith.moved precision a b := by
  unfold div
  rw [value_round h hprecision, value_nonnegativeScale h, h.value_normalized, toDigits_longQuotient h hplaces hb]

/-- If the scale is a word then the quotient is the exact one, rounded. -/
theorem value_div_of_divides (h : arith.Lawful rule) (hprecision : 0 < precision) (hb : b.value ≠ 0)
    (hdivides : arith.Divides precision a b)
    : (arith.div precision a b).value = rule.toDigits precision (a.value / b.value) := by
  rw [value_div h hprecision hdivides.1 hb, moved_of_fits hdivides.2, zpow_zero, mul_one]

/-- The places can be counted if the divisor has fewer than `2 ^ 31` digits. -/
theorem hasPlaces_of_digits (h : arith.Lawful rule) (hlimit : precision < 2 ^ 31) (hdigits : b.digits < 2 ^ 31)
    : arith.HasPlaces precision a b := by
  have ha := a.digits_pos
  unfold HasPlaces mostPlaces
  rw [h.digits, h.digits]
  omega

end Arithmetic

theorem ten_zpow_ne_zero (place : ℤ) : (10 : ℚ) ^ place ≠ 0 := (Rounding.ten_zpow_pos place).ne'

theorem binaryValues_div {m : Machine} {s : State} {u v : Value} (h : Operands.promote? u v = some (.decimals a b))
    (hb : b.value ≠ 0)
    : m.binaryValues .div u v s =
        .ok (.decimal (round s.world.settings.precision (div s.world.settings.precision a b))) s := by
  have hzero : b.isZero = false := beq_false_of_ne (mt value_zero_iff.mpr hb)
  apply Machine.binaryValues_of_apply h
  simp only [Operands.apply, Operands.onDecimals, hzero]
  rfl

/--
Over every arithmetic that is lawful with a rule, dropping the digits of a longer number rounds it by that rule, and
the digits of the quotient of two decimal numbers are those of the exact quotient rounded by the same rule, although only
some places of it are formed, as long as these can be counted. A quotient whose scale is a word has the value of the
rounded one, and is exact if that has no more than so many digits; otherwise it is moved by the places by which the
scale wraps around, which are whole turns of a word. The operator divides over an arithmetic that is lawful, and gives
the same number although it rounds once more.
-/
theorem quotients_are_rounded {precision : Nat} (hprecision : 1 ≤ precision) (hlimit : precision < 2 ^ 31)
    : (∀ (arith : Arithmetic) (rule : Rounding), arith.Lawful rule →
        (∀ x : Decimal, precision < x.digits → (arith.cut x precision).value = rule.toDigits precision x.value) ∧
        (∀ a b : Decimal, b.digits < 2 ^ 31 → arith.HasPlaces precision a b) ∧
        ∀ a b : Decimal, b.value ≠ 0 → arith.HasPlaces precision a b →
          (arith.div precision a b).value =
            rule.toDigits precision (a.value / b.value) * 10 ^ arith.moved precision a b ∧
          rule.toDigits precision (arith.longQuotient precision a b).value =
            rule.toDigits precision (a.value / b.value) * 10 ^ arith.moved precision a b ∧
          2 ^ 64 ∣ arith.moved precision a b ∧
          (arith.ScaleFits precision a b → arith.moved precision a b = 0 ∧
            (arith.div precision a b).value = rule.toDigits precision (a.value / b.value) ∧
            ∀ n place : ℤ, |n| < 10 ^ precision → a.value / b.value = n * 10 ^ place →
              (arith.div precision a b).value = a.value / b.value)) ∧
      arithmetic.Lawful .upFromFive ∧
      ∀ (a b : Decimal) (m : Machine) (s : State) (u v : Value), b.value ≠ 0 → arithmetic.HasPlaces precision a b →
        s.world.settings.precision = precision → Operands.promote? u v = some (.decimals a b) →
        ∃ d : Decimal, m.binaryValues .div u v s = .ok (.decimal d) s ∧
          d.value = Rounding.upFromFive.toDigits precision (a.value / b.value) * 10 ^ arithmetic.moved precision a b := by
  refine ⟨?_, arithmetic_lawful, ?_⟩
  . intro arith rule h
    refine ⟨?_, ?_, ?_⟩
    . intro x hlong
      exact Arithmetic.value_cut_eq_toDigits h hprecision hlong
    . intro a b hdigits
      exact Arithmetic.hasPlaces_of_digits h hlimit hdigits
    . intro a b hb hplaces
      refine ⟨Arithmetic.value_div h hprecision hplaces hb, Arithmetic.toDigits_longQuotient h hplaces hb,
        Arithmetic.dvd_moved arith precision a b, ?_⟩
      intro hfits
      have hvalue := Arithmetic.value_div_of_divides h hprecision hb ⟨hplaces, hfits⟩
      refine ⟨Arithmetic.moved_of_fits hfits, hvalue, ?_⟩
      intro n place hshort hquotient
      rw [hvalue, hquotient, rule.toDigits_of_short n place hshort]
  . intro a b m s u v hb hplaces hs hpromote
    refine ⟨_, binaryValues_div hpromote hb, ?_⟩
    have hround := Arithmetic.value_round arithmetic_lawful hprecision (div precision a b)
    have hdiv : (div precision a b).value = _ := Arithmetic.value_div arithmetic_lawful hprecision hplaces hb
    rw [hs]
    show (arithmetic.round precision _).value = _
    rw [hround, hdiv, Rounding.toDigits_shift, Rounding.toDigits_toDigits _ hprecision]

/-- The arithmetic that cuts every number off. -/
def dropping : Arithmetic :=
  { arithmetic with
    cut := fun x precision =>
      let extra := x.digits - precision
      ⟨Int.tdiv x.mantissa (tenPow extra), x.scale - extra⟩ }

theorem dropping_lawful : dropping.Lawful .never where
  digits _ := rfl
  value_normalized := value_normalized
  value_withScale := value_withScale
  value_cut {x precision} _ h := by
    have hten : tenPow (x.digits - precision) = tenPow (x.digits - precision - 1) * 10 := by
      rw [← tenPow_succ]
      congr 1
      omega
    have hscale : -(x.scale - ((x.digits - precision : Nat) : ℤ)) = ((x.digits - precision : Nat) : ℤ) - x.scale := by
      omega
    have hmantissa : Int.tdiv x.mantissa (tenPow (x.digits - precision)) =
        Rounding.never.signed (x.mantissa < 0) (x.mantissa.natAbs / tenPow (x.digits - precision - 1)) := by
      show _ = if decide (x.mantissa < 0) = true then -((_ / 10 : Nat) : ℤ) else ((_ / 10 : Nat) : ℤ)
      rw [Nat.div_div_eq_div_mul, ← hten]
      split
      . next hneg =>
        have hneg := of_decide_eq_true hneg
        have hm : x.mantissa = -(x.mantissa.natAbs : ℤ) := by omega
        rw [Int.ofNat_tdiv, ← Int.neg_tdiv, ← hm]
      . next hnonneg =>
        have hnonneg := of_decide_eq_false (eq_false_of_ne_true hnonneg)
        have hm : x.mantissa = (x.mantissa.natAbs : ℤ) := by omega
        rw [Int.ofNat_tdiv, ← hm]
    rw [← hmantissa, ← hscale]
    rfl

/--
Two thirds are rounded up and their negative is cut off, and both are cut off over an arithmetic that drops digits; a
divided eighth needs no rounding.
-/
theorem thirds_are_rounded
    : let m := Host.none.machine 3
      let s := Engine.bareState { precision := 5 } .silent 0
      let third (n : Int) : ℚ := (⟨n, 0⟩ : Decimal).value / (⟨3, 0⟩ : Decimal).value
      (1 ≤ 5 ∧ 5 < 2 ^ 31) ∧ (⟨3, 0⟩ : Decimal).value ≠ 0 ∧
      (∀ n ∈ [2, -2], arithmetic.HasPlaces 5 ⟨n, 0⟩ ⟨3, 0⟩) ∧
      (∀ n ∈ [2, -2], arithmetic.ScaleFits 5 ⟨n, 0⟩ ⟨3, 0⟩) ∧
      (⟨66667, 5⟩ : Decimal).value = Rounding.upFromFive.toDigits 5 (third 2) ∧
      (⟨-66666, 5⟩ : Decimal).value = Rounding.upFromFive.toDigits 5 (third (-2)) ∧
      dropping.Lawful .never ∧ (⟨66666, 5⟩ : Decimal).value = Rounding.never.toDigits 5 (third 2) ∧
      (div 5 ⟨1, 0⟩ ⟨8, 0⟩).value = 1 / 8 ∧
      ∃ d : Decimal, m.binaryValues .div (.decimal ⟨2, 0⟩) (.int 3) s = .ok (.decimal d) s ∧
        d.value = Rounding.upFromFive.toDigits 5 (third 2) := by
  intro m s third
  have hthree : (⟨3, 0⟩ : Decimal).value ≠ 0 := mt value_zero_iff.mp (by decide)
  have height : (⟨8, 0⟩ : Decimal).value ≠ 0 := mt value_zero_iff.mp (by decide)
  have hfits : ∀ n ∈ [2, -2], arithmetic.ScaleFits 5 ⟨n, 0⟩ ⟨3, 0⟩ := by
    unfold Arithmetic.ScaleFits
    decide
  have hquotients := @quotients_are_rounded 5 (by norm_num) (by norm_num)
  have hstandard := (hquotients.1 arithmetic .upFromFive arithmetic_lawful).2
  have hdropping := (hquotients.1 dropping .never dropping_lawful).2
  have hplaces (a : Decimal) : arithmetic.HasPlaces 5 a ⟨3, 0⟩ := hstandard.1 a ⟨3, 0⟩ (by decide)
  have hup : arithmetic.div 5 ⟨2, 0⟩ ⟨3, 0⟩ = ⟨66667, 5⟩ := by decide
  have hcut : arithmetic.div 5 ⟨-2, 0⟩ ⟨3, 0⟩ = ⟨-66666, 5⟩ := by decide
  have hdropped : dropping.div 5 ⟨2, 0⟩ ⟨3, 0⟩ = ⟨66666, 5⟩ := by decide
  refine ⟨by norm_num, hthree, fun n _ => hplaces ⟨n, 0⟩, hfits, ?_, ?_, dropping_lawful, ?_, ?_, ?_⟩
  . rw [← hup]
    exact ((hstandard.2 ⟨2, 0⟩ ⟨3, 0⟩ hthree (hplaces _)).2.2.2 (hfits 2 (by decide))).2.1
  . rw [← hcut]
    exact ((hstandard.2 ⟨-2, 0⟩ ⟨3, 0⟩ hthree (hplaces _)).2.2.2 (hfits (-2) (by decide))).2.1
  . rw [← hdropped]
    exact ((hdropping.2 ⟨2, 0⟩ ⟨3, 0⟩ hthree (hplaces _)).2.2.2 (hfits 2 (by decide))).2.1
  . have heighth : (⟨1, 0⟩ : Decimal).value / (⟨8, 0⟩ : Decimal).value = 1 / 8 := by norm_num [value]
    have hfits : arithmetic.ScaleFits 5 ⟨1, 0⟩ ⟨8, 0⟩ := by
      unfold Arithmetic.ScaleFits
      decide
    have hexact := ((hstandard.2 ⟨1, 0⟩ ⟨8, 0⟩ height (hstandard.1 _ _ (by decide))).2.2.2 hfits).2.2
    exact (hexact 125 (-3) (by norm_num) (by norm_num [heighth])).trans heighth
  . have hmoved : arithmetic.moved 5 ⟨2, 0⟩ ⟨3, 0⟩ = 0 := by decide
    rcases hquotients.2.2 ⟨2, 0⟩ ⟨3, 0⟩ m s (.decimal ⟨2, 0⟩) (.int 3) hthree (hplaces _) rfl rfl with ⟨d, hrun, hd⟩
    rw [hmoved, zpow_zero, mul_one] at hd
    exact ⟨d, hrun, hd⟩

/-- A divisor with more digits than there are places that can be counted leaves nothing of the quotient. -/
theorem value_div_long {precision n : Nat} (hprecision : 0 < precision) (hlong : Arithmetic.mostPlaces < n)
    : (div precision ⟨1, 0⟩ ⟨tenPow n, 0⟩).value = 0 := by
  have hplaces : arithmetic.divPlaces precision ⟨1, 0⟩ ⟨tenPow n, 0⟩ < n :=
    Nat.lt_of_le_of_lt (Nat.min_le_right _ _) hlong
  have hlt : tenPow (arithmetic.divPlaces precision ⟨1, 0⟩ ⟨tenPow n, 0⟩) < tenPow n :=
    Nat.pow_lt_pow_right (by norm_num) hplaces
  have hquotient : (arithmetic.longQuotient precision ⟨1, 0⟩ ⟨tenPow n, 0⟩).value = 0 := by
    rw [value_zero_iff]
    show Int.tdiv (1 * (tenPow (arithmetic.divPlaces precision ⟨1, 0⟩ ⟨tenPow n, 0⟩) : ℤ)) (tenPow n : ℤ) = 0
    rw [one_mul, ← Int.ofNat_tdiv, Nat.div_eq_of_lt hlt]
    rfl
  unfold div Arithmetic.div
  rw [Arithmetic.value_round arithmetic_lawful hprecision, Arithmetic.value_nonnegativeScale arithmetic_lawful,
    arithmetic_lawful.value_normalized, hquotient]
  have hzero := @Rounding.toDigits_of_short precision .upFromFive 0 0 (by positivity)
  rwa [Int.cast_zero, zero_mul] at hzero

/--
The quotient of the largest by the smallest numbers does not fit. It comes out as a number below one. Nothing is left of
a quotient by a number with more than `2 ^ 32` digits.
-/
theorem huge_quotient_wraps_around
    : let m := Host.none.machine 3
      let s := Engine.bareState {} .silent 0
      let a : Decimal := ⟨1, -9000000000000000000⟩
      let b : Decimal := ⟨1, 9000000000000000000⟩
      let d : Decimal := ⟨1, 446744073709551616⟩
      b.value ≠ 0 ∧ s.world.settings.precision = 308 ∧
      m.binaryValues .div (.decimal a) (.decimal b) s = .ok (.decimal d) s ∧ div 308 a b = d ∧
      a.value / b.value = 10 ^ (18000000000000000000 : ℤ) ∧
      Rounding.upFromFive.toDigits 308 (a.value / b.value) = a.value / b.value ∧ d.value ≠ a.value / b.value ∧
      (div 308 ⟨1, 0⟩ ⟨tenPow (2 ^ 32), 0⟩).value = 0 := by
  intro m s a b d
  have hb : b.value ≠ 0 := mt value_zero_iff.mp (by decide)
  have hdiv : div 308 a b = d := by decide +kernel
  have hround : round 308 d = d := by decide
  have hquotient : a.value / b.value = 10 ^ (18000000000000000000 : ℤ) := by
    have ha : a.value = 10 ^ (9000000000000000000 : ℤ) := (mul_eq_right₀ (ten_zpow_ne_zero _)).mpr Int.cast_one
    have hb : b.value = 10 ^ (-9000000000000000000 : ℤ) := (mul_eq_right₀ (ten_zpow_ne_zero _)).mpr Int.cast_one
    rw [ha, hb, ← zpow_sub₀ (by norm_num)]
    rfl
  have hshort : Rounding.upFromFive.toDigits 308 (a.value / b.value) = a.value / b.value := by
    have hone := Rounding.upFromFive.toDigits_of_short 1 (18000000000000000000 : ℤ)
      (show |(1 : ℤ)| < 10 ^ 308 from one_lt_pow₀ (by norm_num) (by norm_num))
    rwa [Int.cast_one, one_mul, ← hquotient] at hone
  refine ⟨hb, rfl, ?_, hdiv, hquotient, hshort, ?_, value_div_long (by norm_num) (by norm_num [Arithmetic.mostPlaces])⟩
  . rw [binaryValues_div rfl hb]
    show EStateM.Result.ok (Value.decimal (round 308 (div 308 a b))) s = _
    rw [hdiv, hround]
  . have hd : d.value = 10 ^ (-446744073709551616 : ℤ) := (mul_eq_right₀ (ten_zpow_ne_zero _)).mpr Int.cast_one
    rw [hd, hquotient]
    intro heq
    exact absurd (zpow_right_injective₀ (by norm_num) (by norm_num) heq) (by decide)

end Decimal

end ScriptEngine
