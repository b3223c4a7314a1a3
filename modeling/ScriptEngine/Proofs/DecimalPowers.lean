import ScriptEngine.Proofs.Quotients
import ScriptEngine.Proofs.Words

/-!
This module contains the powers of decimal numbers to integers. Every step of repeated squaring is rounded, also a
square that is not needed any more, and still the power is exact if its digits fit.
-/

namespace ScriptEngine

namespace Decimal

variable {a b x : Decimal} {precision : Nat}

theorem magnitude_of_whole (ds : List Char) : magnitude ds 0 = ds := by
  unfold magnitude leadingZeros trailingZeros
  rw [if_neg (by omega), if_neg (by omega), if_pos le_rfl]
  exact List.append_nil ds

/-- The text of a whole number is read back as the word that it is. -/
theorem read?_text (w : Int64) : Word.read? (text ⟨w.toInt, 0⟩) = some w := by
  have hdigit (c : Char) (hc : c ∈ Nat.toDigits 10 w.toInt.natAbs) : c.isDigit = true :=
    Nat.isDigit_of_mem_toDigits (by norm_num) le_rfl hc
  unfold text
  dsimp only
  rw [ite_self, magnitude_of_whole]
  split
  . next hneg =>
    have hvalue : -((w.toInt.natAbs : Nat) : ℤ) = w.toInt := by omega
    unfold Word.read?
    rw [String.toList_ofList]
    show ((Word.digits? (Nat.toDigits 10 w.toInt.natAbs)).bind fun n => Word.ofInt? (-(n : ℤ))) = some w
    rw [Word.digits?_toDigits, Option.bind_some, Word.ofInt?_eq_some_iff, hvalue]
  . next hnonneg =>
    have hvalue : ((w.toInt.natAbs : Nat) : ℤ) = w.toInt := by omega
    rw [Word.read?_of_digits hdigit, Word.digits?_toDigits, Option.bind_some, Word.ofInt?_eq_some_iff, hvalue]

/-- A whole number that is written with places has zeros there. -/
theorem mantissa_of_whole {n : ℤ} (h : x.value = n) (hscale : 0 < x.scale)
    : x.mantissa = n * tenPow x.scale.toNat := by
  have hmantissa : (x.mantissa : ℚ) = n * 10 ^ x.scale := by
    rw [← h]
    unfold value
    rw [mul_assoc, ← zpow_add₀ (by norm_num), neg_add_cancel, zpow_zero, mul_one]
  have hscale : x.scale = (x.scale.toNat : ℤ) := by omega
  rw [hscale, zpow_natCast, ← tenPow_cast] at hmantissa
  exact_mod_cast hmantissa

theorem isIntegral_of_whole {n : ℤ} (h : x.value = n) : x.isIntegral = true := by
  unfold isIntegral
  rw [Bool.or_eq_true, decide_eq_true_eq, beq_iff_eq]
  rcases le_or_gt x.scale 0 with hscale | hscale
  . exact .inl hscale
  . rw [mantissa_of_whole h hscale]
    exact .inr (Int.mul_tmod_left _ _)

theorem withScale_of_whole {n : ℤ} (h : x.value = n) : x.withScale 0 = ⟨n, 0⟩ := by
  unfold withScale
  congr 1
  rcases le_or_gt x.scale 0 with hscale | hscale
  . rw [value_eq_mantissaAt hscale, neg_zero, zpow_zero, mul_one] at h
    exact Int.cast_injective h
  . have hpos : ((tenPow x.scale.toNat : Nat) : ℤ) ≠ 0 := Int.natCast_ne_zero.mpr (tenPow_pos _).ne'
    unfold mantissaAt
    rw [if_neg (by omega), Int.sub_zero, mantissa_of_whole h hscale, Int.mul_tdiv_cancel _ hpos]

theorem toWord?_of_whole {w : Int64} (h : x.value = w.toInt) : x.toWord? = some w := by
  unfold toWord?
  rw [withScale_of_whole h, read?_text]

theorem mantissa_of_isUnit (h : x.isUnit = true) : x.mantissa = tenPow x.scale.toNat ∧ 0 ≤ x.scale := by
  unfold isUnit at h
  rw [Bool.and_eq_true, Bool.and_eq_true, decide_eq_true_eq, beq_iff_eq] at h
  exact ⟨h.2, h.1.1⟩

theorem value_of_isUnit (h : x.isUnit = true) : x.value = 1 := by
  rcases mantissa_of_isUnit h with ⟨hmantissa, hscale⟩
  have hscale : x.scale = (x.scale.toNat : ℤ) := by omega
  unfold value
  rw [hmantissa, Int.cast_natCast, tenPow_cast, ← zpow_natCast, ← hscale, ← zpow_add₀ (by norm_num), add_neg_cancel,
    zpow_zero]

theorem natAbs_pos_of_isUnit (h : x.isUnit = true) : 0 < x.mantissa.natAbs := by
  rw [(mantissa_of_isUnit h).1, Int.natAbs_natCast]
  exact tenPow_pos _

theorem natAbs_normalized_go_le (fuel : Nat) (x : Decimal)
    : (normalized.go fuel x).mantissa.natAbs ≤ x.mantissa.natAbs := by
  induction fuel generalizing x with
  | zero => exact le_rfl
  | succ fuel ih =>
    unfold normalized.go
    split
    . apply (ih _).trans
      show (Int.tdiv x.mantissa 10).natAbs ≤ x.mantissa.natAbs
      rw [Int.natAbs_tdiv]
      exact Nat.div_le_self _ _
    . exact le_rfl

theorem natAbs_normalized_le (x : Decimal) : x.normalized.mantissa.natAbs ≤ x.mantissa.natAbs := by
  unfold normalized
  split
  . exact Nat.zero_le _
  . exact natAbs_normalized_go_le x.digits x

theorem value_mul (a b : Decimal) : (a.mul b).value = a.value * b.value := by
  unfold mul
  split
  . next h => rw [value_normalized, value_of_isUnit h, one_mul]
  . split
    . next h => rw [value_normalized, value_of_isUnit h, mul_one]
    . unfold value
      show ((a.mantissa * b.mantissa : ℤ) : ℚ) * 10 ^ (-(a.scale + b.scale)) = _
      rw [neg_add, zpow_add₀ (by norm_num)]
      push_cast
      ring

/-- The mantissa of a product is no longer than the product of the mantissas. -/
theorem natAbs_mul_le (a b : Decimal) : (a.mul b).mantissa.natAbs ≤ a.mantissa.natAbs * b.mantissa.natAbs := by
  unfold mul
  split
  . next h => exact (natAbs_normalized_le b).trans (Nat.le_mul_of_pos_left _ (natAbs_pos_of_isUnit h))
  . split
    . next h => exact (natAbs_normalized_le a).trans (Nat.le_mul_of_pos_right _ (natAbs_pos_of_isUnit h))
    . exact (Int.natAbs_mul _ _).le

theorem round_of_fits (hprecision : 0 < precision) (h : x.mantissa.natAbs < 10 ^ precision)
    : round precision x = x := by
  have hdigits : x.digits ≤ precision := by
    rw [digits_le_iff hprecision, Int.abs_eq_natAbs]
    exact_mod_cast h
  exact if_neg (Nat.not_lt.mpr hdigits)

/-- A product whose digits fit is not rounded. -/
theorem round_mul (hprecision : 0 < precision) (h : a.mantissa.natAbs * b.mantissa.natAbs < 10 ^ precision)
    : round precision (a.mul b) = a.mul b :=
  round_of_fits hprecision (lt_of_le_of_lt (natAbs_mul_le a b) h)

section Squaring

variable {acc square : Decimal}

/-- What one round collects is exact: nothing, or the square if the exponent is odd. -/
theorem collect_eq (hprecision : 0 < precision) (exponent : Nat)
    (h : exponent % 2 = 1 → acc.mantissa.natAbs * square.mantissa.natAbs < 10 ^ precision)
    : ∃ acc', (if exponent % 2 = 1 then round precision (acc.mul square) else acc) = acc' ∧
        acc'.mantissa.natAbs ≤ acc.mantissa.natAbs * square.mantissa.natAbs ^ (exponent % 2) ∧
        acc'.value = acc.value * square.value ^ (exponent % 2) := by
  rcases Nat.mod_two_eq_zero_or_one exponent with heven | hodd
  . refine ⟨acc, if_neg (by omega), ?_, ?_⟩
    . rw [heven, pow_zero, mul_one]
    . rw [heven, pow_zero, mul_one]
  . refine ⟨acc.mul square, ?_, ?_, ?_⟩
    . rw [if_pos hodd, round_mul hprecision (h hodd)]
    . rw [hodd, pow_one]
      exact natAbs_mul_le acc square
    . rw [hodd, pow_one, value_mul]

/--
The power of the next square that is still left is that of an exact square. If nothing is left, the square may have
been rounded.
-/
theorem square_pow_eq (hprecision : 0 < precision) (half : Nat)
    (h : half ≠ 0 → square.mantissa.natAbs * square.mantissa.natAbs < 10 ^ precision)
    : (round precision (square.mul square)).mantissa.natAbs ^ half ≤ square.mantissa.natAbs ^ (2 * half) ∧
        (round precision (square.mul square)).value ^ half = square.value ^ (2 * half) := by
  by_cases hhalf : half = 0
  . rw [hhalf, Nat.mul_zero, pow_zero, pow_zero, pow_zero, pow_zero]
    exact ⟨le_rfl, rfl⟩
  . rw [round_mul hprecision (h hhalf), value_mul, pow_mul, pow_mul, pow_two, pow_two]
    exact ⟨Nat.pow_le_pow_left (natAbs_mul_le square square) half, rfl⟩

theorem pow_le_pow_of_pos (n : Nat) {j k : Nat} (hj : 0 < j) (h : j ≤ k) : n ^ j ≤ n ^ k := by
  rcases Nat.eq_zero_or_pos n with rfl | hn
  . rw [zero_pow hj.ne']
    exact Nat.zero_le _
  . exact Nat.pow_le_pow_right hn h

/--
As long as the digits of what is collected, multiplied by the power that is left, fit, and so do those of this power,
no product that is needed is rounded.
-/
theorem value_powNat_go (hprecision : 0 < precision) (acc square : Decimal) (exponent : Nat)
    (hacc : acc.mantissa.natAbs * square.mantissa.natAbs ^ exponent < 10 ^ precision)
    (hsquare : square.mantissa.natAbs ^ exponent < 10 ^ precision)
    : (powNat.go precision acc square exponent).value = acc.value * square.value ^ exponent := by
  fun_induction powNat.go precision acc square exponent with
  | case1 acc square => rw [pow_zero, mul_one]
  | case2 acc square exponent hexponent acc' ih =>
    have hsplit : exponent % 2 + 2 * (exponent / 2) = exponent := Nat.mod_add_div exponent 2
    -- A factor that is used now or later divides the power that fits. The last square is neither.
    have hcollect (hodd : exponent % 2 = 1) : acc.mantissa.natAbs * square.mantissa.natAbs < 10 ^ precision := by
      apply lt_of_le_of_lt (Nat.mul_le_mul_left _ _) hacc
      exact Nat.le_self_pow hexponent _
    have hnext (hhalf : exponent / 2 ≠ 0) : square.mantissa.natAbs * square.mantissa.natAbs < 10 ^ precision := by
      rw [← pow_two]
      exact lt_of_le_of_lt (pow_le_pow_of_pos _ (by omega) (by omega)) hsquare
    rcases collect_eq hprecision exponent hcollect with ⟨collected, hcollected, hle, hvalue⟩
    rcases square_pow_eq hprecision (exponent / 2) hnext with ⟨hsquarele, hsquarevalue⟩
    have hacc' : acc' = collected := hcollected
    rw [hacc'] at ih ⊢
    rw [ih, hvalue, hsquarevalue, mul_assoc, ← pow_add, hsplit]
    . calc
        _ ≤ acc.mantissa.natAbs * square.mantissa.natAbs ^ (exponent % 2) *
            square.mantissa.natAbs ^ (2 * (exponent / 2)) := Nat.mul_le_mul hle hsquarele
        _ = acc.mantissa.natAbs * square.mantissa.natAbs ^ exponent := by rw [mul_assoc, ← pow_add, hsplit]
        _ < 10 ^ precision := hacc
    . apply lt_of_le_of_lt hsquarele
      by_cases hhalf : exponent / 2 = 0
      . rw [hhalf]
        exact one_lt_pow₀ (by norm_num) hprecision.ne'
      . exact lt_of_le_of_lt (pow_le_pow_of_pos _ (by omega) (by omega)) hsquare

/-- A power whose digits fit is exact, although squares are rounded on the way. -/
theorem value_powNat {exponent : Nat} (h : digitCount (x.mantissa.natAbs ^ exponent) ≤ precision)
    : (powNat precision x exponent).value = x.value ^ exponent := by
  have hprecision : 0 < precision := lt_of_lt_of_le Nat.length_toDigits_pos h
  have hfits : x.mantissa.natAbs ^ exponent < 10 ^ precision :=
    (Nat.length_toDigits_le_iff (by norm_num) hprecision).mp h
  have hone : (ofInt 1).value = 1 := by
    unfold value ofInt
    norm_num
  unfold powNat
  rw [value_powNat_go hprecision _ _ _ _ hfits, hone, one_mul]
  show 1 * _ < _
  rwa [one_mul]

end Squaring

section Operators

variable {m : Machine} {s : State} {u v : Value} {e : Decimal} {n : Int64}

theorem binaryValues_pow_whole (h : Operands.promote? u v = some (.decimals x e)) (he : e.value = n.toInt)
    : m.binaryValues .pow u v s = .ok (.decimal (x.powInt s.world.settings.precision n.toInt)) s := by
  apply Machine.binaryValues_of_apply h
  simp only [Operands.apply, Operands.onDecimals, Operands.decimalPow, isIntegral_of_whole he, toWord?_of_whole he]

theorem powInt_of_nonneg {n : Int} (h : 0 ≤ n) : x.powInt precision n = powNat precision x n.natAbs :=
  if_neg fun hneg => absurd h (Int.not_le.mpr hneg.1)

theorem powInt_of_neg {n : Int} (h : n < 0) (hpower : (powNat precision x n.natAbs).value ≠ 0)
    : x.powInt precision n = div precision (ofInt 1) (powNat precision x n.natAbs) := by
  have hzero : (powNat precision x n.natAbs).isZero = false := beq_false_of_ne (mt value_zero_iff.mpr hpower)
  apply if_pos
  rw [hzero]
  exact ⟨h, rfl⟩

/--
The power of a decimal number to an integer that is a word is exact if the digits of the power of its mantissa fit the
precision. For a negative integer, it is then the quotient of one by the exact power, whatever number stands for that
as long as the quotient can be formed.
-/
theorem fitting_powers_are_exact (m : Machine) (s : State) {u v : Value} {x e : Decimal} {n : Int64}
    (h : Operands.promote? u v = some (.decimals x e)) (he : e.value = n.toInt)
    (hfits : digitCount (x.mantissa.natAbs ^ n.toInt.natAbs) ≤ s.world.settings.precision)
    : (0 ≤ n.toInt → ∃ d : Decimal, m.binaryValues .pow u v s = .ok (.decimal d) s ∧
        d.value = x.value ^ n.toInt.toNat) ∧
      (n.toInt < 0 → x.value ≠ 0 → ∃ d p : Decimal, m.binaryValues .pow u v s = .ok (.decimal d) s ∧
        p.value = x.value ^ n.toInt.natAbs ∧ d = div s.world.settings.precision (ofInt 1) p ∧
        ∀ p' : Decimal, p'.value = x.value ^ n.toInt.natAbs →
          arithmetic.Divides s.world.settings.precision (ofInt 1) p →
          arithmetic.Divides s.world.settings.precision (ofInt 1) p' →
          d.value = (div s.world.settings.precision (ofInt 1) p').value) := by
  have hpower := value_powNat hfits
  constructor
  . intro hn
    have hnat : n.toInt.natAbs = n.toInt.toNat := by omega
    rw [hnat] at hpower
    refine ⟨_, binaryValues_pow_whole h he, ?_⟩
    rw [powInt_of_nonneg hn, hnat, hpower]
  . intro hn hx
    have hnonzero : (powNat s.world.settings.precision x n.toInt.natAbs).value ≠ 0 := by
      rw [hpower]
      exact pow_ne_zero _ hx
    refine ⟨_, _, binaryValues_pow_whole h he, hpower, powInt_of_neg hn hnonzero, ?_⟩
    intro p' hp' hdivides hdivides'
    have hp'nonzero : p'.value ≠ 0 := by
      rw [hp']
      exact pow_ne_zero _ hx
    have hprecision : 0 < s.world.settings.precision := lt_of_lt_of_le Nat.length_toDigits_pos hfits
    have hd := Arithmetic.value_div_of_divides arithmetic_lawful hprecision hnonzero hdivides
    have hd' := Arithmetic.value_div_of_divides arithmetic_lawful hprecision hp'nonzero hdivides'
    rw [hpower] at hd
    rw [hp'] at hd'
    rw [powInt_of_neg hn hnonzero]
    exact hd.trans hd'.symm

/--
With four digits, the third power of `1.5` is exact, although the fourth one, which is formed beside it, has five. An
exponent may be written with places, or be negative.
-/
theorem cube_of_one_and_a_half
    : let m := Host.none.machine 3
      let s := Engine.bareState { precision := 4 } .silent 0
      (⟨300, 2⟩ : Decimal).value = (3 : Int64).toInt ∧ digitCount (15 ^ 3) ≤ 4 ∧
      (∃ d : Decimal, m.binaryValues .pow (.decimal ⟨15, 1⟩) (.decimal ⟨300, 2⟩) s = .ok (.decimal d) s ∧
        d.value = 27 / 8) ∧
      ∃ d p : Decimal, m.binaryValues .pow (.decimal ⟨15, 1⟩) (.int (-3)) s = .ok (.decimal d) s ∧
        p.value = 27 / 8 ∧ d = div 4 (ofInt 1) p := by
  intro m s
  have hthree : (⟨300, 2⟩ : Decimal).value = (3 : Int64).toInt := by
    have hword : (3 : Int64).toInt = 3 := by decide
    rw [hword]
    norm_num [value]
  have hminus : (ofWord (-3)).value = (-3 : Int64).toInt := value_ofWord (-3)
  have hbase : (⟨15, 1⟩ : Decimal).value ≠ 0 := mt value_zero_iff.mp (by decide)
  have hcube : (⟨15, 1⟩ : Decimal).value ^ 3 = 27 / 8 := by norm_num [value]
  have hfits : digitCount (15 ^ 3) ≤ 4 := by decide
  have hcubed := fitting_powers_are_exact m s (u := .decimal ⟨15, 1⟩) (v := .decimal ⟨300, 2⟩) rfl hthree hfits
  have hdivided := fitting_powers_are_exact m s (u := .decimal ⟨15, 1⟩) (v := .int (-3)) rfl hminus hfits
  refine ⟨hthree, hfits, ?_, ?_⟩
  . rw [← hcube]
    exact hcubed.1 (by decide)
  . rcases hdivided.2 (by decide) hbase with ⟨d, p, hrun, hp, hd, _⟩
    exact ⟨d, p, hrun, hp.trans hcube, hd⟩

end Operators

end Decimal

end ScriptEngine
