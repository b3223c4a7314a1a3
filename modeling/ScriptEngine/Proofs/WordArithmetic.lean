import Mathlib.Algebra.Order.Ring.Int
import Mathlib.Tactic.NormNum
import ScriptEngine.Engine.Machine
import ScriptEngine.Engine.Setup
import ScriptEngine.Proofs.Numbers
import ScriptEngine.Proofs.Words

/-!
This module contains the shifts and powers of words. A shift to the left multiplies by a power of two and a power is
a product, both reduced to the integer that the remaining bits stand for; a shift to the right divides and rounds
down.
-/

namespace ScriptEngine

namespace Word

variable {count : Nat}

/-- How far a shift moves the bits of a word: by the count, as long as a word has that many bits. -/
theorem toNat_shiftAmount (h : count < 64) : ((Int64.ofNat count).toBitVec.smod 64).toNat = count := by
  have hcount : (BitVec.ofNat 64 count).toNat = count := by
    rw [BitVec.toNat_ofNat]
    exact Nat.mod_eq_of_lt (by omega)
  have hsign : (BitVec.ofNat 64 count).msb = false := by
    rw [BitVec.msb_eq_false_iff_two_mul_lt, hcount]
    omega
  show ((BitVec.ofNat 64 count).smod 64).toNat = count
  -- The amount is a signed remainder; without signs it is the one of natural numbers.
  unfold BitVec.smod
  rw [hsign]
  show (BitVec.ofNat 64 count % 64#64).toNat = count
  rw [BitVec.toNat_umod, hcount]
  exact Nat.mod_eq_of_lt h

theorem toInt_shiftLeft (value : Int64) (count : Nat)
    : (shiftLeft value count).toInt = (value.toInt * 2 ^ count).bmod (2 ^ 64) := by
  unfold shiftLeft
  split
  . next h =>
    have hvalue : value.toInt = (value.toBitVec.toNat : Int).bmod (2 ^ 64) := BitVec.toInt_eq_toNat_bmod _
    show (value <<< Int64.ofNat count).toBitVec.toInt = _
    rw [Int64.toBitVec_shiftLeft, BitVec.shiftLeft_eq', toNat_shiftAmount h, BitVec.toInt_shiftLeft, hvalue,
      Int.bmod_mul_bmod, Nat.shiftLeft_eq]
    push_cast
    rfl
  . next h =>
    have hdvd : ((2 ^ 64 : Nat) : Int) ∣ value.toInt * 2 ^ count := by
      push_cast
      exact Dvd.dvd.mul_left (pow_dvd_pow 2 (Nat.not_lt.mp h)) _
    rw [Int.bmod_eq_zero_of_dvd hdvd]
    rfl

/-- Once all bits are moved out, what is left is a sign. -/
theorem fdiv_of_wide (value : Int64) (h : 64 ≤ count)
    : value.toInt.fdiv (2 ^ count) = if value < 0 then -1 else 0 := by
  have hpow : (2 : Int) ^ 64 ≤ 2 ^ count := pow_le_pow_right₀ (by norm_num) h
  have hleast := value.le_toInt
  have hgreatest := value.toInt_lt
  rw [Int.fdiv_eq_ediv_of_nonneg _ (by omega)]
  split
  . next hneg =>
    have hneg : value.toInt < 0 := Int64.lt_iff_toInt_lt.mp hneg
    rw [Int.ediv_eq_iff_of_pos (by omega)]
    omega
  . next hnonneg =>
    have hnonneg : ¬value.toInt < 0 := fun hneg => hnonneg (Int64.lt_iff_toInt_lt.mpr hneg)
    exact Int.ediv_eq_zero_of_lt (by omega) (by omega)

theorem toInt_shiftRight (value : Int64) (count : Nat)
    : (shiftRight value count).toInt = value.toInt.fdiv (2 ^ count) := by
  unfold shiftRight
  split
  . next h =>
    show (value >>> Int64.ofNat count).toBitVec.toInt = _
    rw [Int64.toBitVec_shiftRight, BitVec.toInt_sshiftRight', toNat_shiftAmount h, Int.shiftRight_eq_div_pow,
      Int.fdiv_eq_ediv_of_nonneg _ (by positivity)]
    push_cast
    rfl
  . next h =>
    rw [fdiv_of_wide value (Nat.not_lt.mp h)]
    split <;> rfl

theorem shiftCount?_eq_some {c : Int64} (h : 0 ≤ c.toInt) (hlimit : c.toInt ≤ shiftLimit)
    : shiftCount? c = some c.toInt.toNat :=
  if_pos ⟨h, hlimit⟩

theorem shiftCount?_eq_none {c : Int64} (h : c.toInt < 0 ∨ shiftLimit < c.toInt) : shiftCount? c = none :=
  if_neg (by omega)

theorem hpow_add (base : Int64) (m n : Nat) : base ^ (m + n) = base ^ m * base ^ n := by
  induction n with
  | zero => rw [Int64.pow_zero, Int64.mul_one, Nat.add_zero]
  | succ n ih => rw [← Nat.add_assoc, Int64.pow_succ, Int64.pow_succ, ih, Int64.mul_assoc]

theorem square_hpow (base : Int64) (n : Nat) : (base * base) ^ n = base ^ (2 * n) := by
  induction n with
  | zero => rw [Int64.pow_zero, Nat.mul_zero, Int64.pow_zero]
  | succ n ih => rw [Int64.pow_succ, ih, Nat.mul_succ, Int64.pow_succ, Int64.pow_succ, Int64.mul_assoc]

/-- Repeated squaring keeps the product of what is collected and of the power that is left. -/
theorem pow_go_eq (acc base : Int64) (exponent : Nat) : pow.go acc base exponent = acc * base ^ exponent := by
  fun_induction pow.go acc base exponent with
  | case1 acc base => rw [Int64.pow_zero, Int64.mul_one]
  | case2 acc base exponent hexponent acc' ih =>
    -- What half of the exponent is to the square, the exponent without its lowest bit is to the base.
    rw [ih, square_hpow]
    unfold acc'
    split
    . next hodd =>
      have hhalves : 2 * (exponent / 2) + 1 = exponent := by omega
      rw [Int64.mul_assoc, Int64.mul_comm base, ← Int64.pow_succ, hhalves]
    . next heven =>
      have hhalves : 2 * (exponent / 2) = exponent := by omega
      rw [hhalves]

theorem toInt_hpow (base : Int64) (n : Nat) : (base ^ n).toInt = (base.toInt ^ n).bmod (2 ^ 64) := by
  induction n with
  | zero =>
    rw [Int64.pow_zero, pow_zero]
    rfl
  | succ n ih => rw [Int64.pow_succ, Int64.toInt_mul, ih, Int.bmod_mul_bmod, pow_succ base.toInt]

theorem pow_eq_hpow (base : Int64) (exponent : Nat) : pow base exponent = base ^ exponent := by
  unfold pow
  rw [pow_go_eq, Int64.one_mul]

end Word

section Operators

variable {m : Machine} {v c w : Int64} {s : State}

theorem binaryValues_shl (h : 0 ≤ c.toInt) (hlimit : c.toInt ≤ Word.shiftLimit)
    : m.binaryValues .shl (.int v) (.int c) s = .ok (.int (Word.shiftLeft v c.toInt.toNat)) s := by
  apply Machine.binaryValues_of_apply (Operands.promote?_words v c)
  simp only [Operands.apply, Operands.onWords, Word.shiftCount?_eq_some h hlimit]

theorem binaryValues_shr (h : 0 ≤ c.toInt) (hlimit : c.toInt ≤ Word.shiftLimit)
    : m.binaryValues .shr (.int v) (.int c) s = .ok (.int (Word.shiftRight v c.toInt.toNat)) s := by
  apply Machine.binaryValues_of_apply (Operands.promote?_words v c)
  simp only [Operands.apply, Operands.onWords, Word.shiftCount?_eq_some h hlimit]

theorem binaryValues_bad_shift (op : BinaryOp) (hop : op = .shl ∨ op = .shr)
    (h : c.toInt < 0 ∨ Word.shiftLimit < c.toInt)
    : m.binaryValues op (.int v) (.int c) s = .error (.raised (.ofCause Operands.badShift)) s := by
  rcases hop with rfl | rfl
  all_goals
    apply Machine.binaryValues_of_failed (Operands.promote?_words v c)
    simp only [Operands.apply, Operands.onWords, Word.shiftCount?_eq_none h]

theorem binaryValues_pow (h : 0 ≤ w.toInt)
    : m.binaryValues .pow (.int v) (.int w) s = .ok (.int (v ^ w.toInt.toNat)) s := by
  apply Machine.binaryValues_of_apply (Operands.promote?_words v w)
  simp only [Operands.apply, Operands.onWords, if_pos h, Word.pow_eq_hpow]

/--
A shift to the left by a count that is not negative and below `2 ^ 32` multiplies by a power of two, reduced to the
integers of words, and one to the right divides by it and rounds down; this is so for the counts past the width of a
word, too. Any other count is refused, in both directions.
-/
theorem shifts_are_exact (m : Machine) (v c : Int64) (s : State)
    : (0 ≤ c.toInt → c.toInt < 2 ^ 32 →
        (∃ w : Int64, m.binaryValues .shl (.int v) (.int c) s = .ok (.int w) s ∧
          w.toInt = (v.toInt * 2 ^ c.toInt.toNat).bmod (2 ^ 64)) ∧
        ∃ w : Int64, m.binaryValues .shr (.int v) (.int c) s = .ok (.int w) s ∧
          w.toInt = v.toInt.fdiv (2 ^ c.toInt.toNat)) ∧
      (c.toInt < 0 ∨ 2 ^ 32 ≤ c.toInt → ∀ op, op = .shl ∨ op = .shr →
        m.binaryValues op (.int v) (.int c) s =
          .error (.raised (.ofCause (.typeMismatch "a non-negative shift count" "Int"))) s) := by
  constructor
  . intro h hlimit
    have hlimit : c.toInt ≤ Word.shiftLimit := Int.le_of_lt_add_one hlimit
    constructor
    . exact ⟨_, binaryValues_shl h hlimit, Word.toInt_shiftLeft v _⟩
    . exact ⟨_, binaryValues_shr h hlimit, Word.toInt_shiftRight v _⟩
  . intro h op hop
    have h : c.toInt < 0 ∨ Word.shiftLimit < c.toInt := h.imp_right Int.lt_of_add_one_le
    exact binaryValues_bad_shift op hop h

/--
An odd word keeps its lowest bit at the top when it is shifted by 63, and nothing is left after 64. The other way, it
is rounded down. A count of `2 ^ 32` is refused.
-/
theorem shifts_at_the_limits
    : let m := Host.none.machine 3
      let s := Engine.bareState {} .silent 0
      (∃ w : Int64, m.binaryValues .shl (.int (-5)) (.int 63) s = .ok (.int w) s ∧ w.toInt = Word.least) ∧
      (∃ w : Int64, m.binaryValues .shl (.int (-5)) (.int 64) s = .ok (.int w) s ∧ w.toInt = 0) ∧
      (∃ w : Int64, m.binaryValues .shr (.int (-5)) (.int 1) s = .ok (.int w) s ∧ w.toInt = -3) ∧
      m.binaryValues .shr (.int (-5)) (.int 4294967296) s =
        .error (.raised (.ofCause (.typeMismatch "a non-negative shift count" "Int"))) s := by
  intro m s
  refine ⟨?_, ?_, ?_, ?_⟩
  . exact ((shifts_are_exact m (-5) 63 s).1 (by decide) (by decide)).1
  . exact ((shifts_are_exact m (-5) 64 s).1 (by decide) (by decide)).1
  . exact ((shifts_are_exact m (-5) 1 s).1 (by decide) (by decide)).2
  . exact (shifts_are_exact m (-5) 4294967296 s).2 (by decide) .shr (.inr rfl)

/--
A power of a word with an exponent that is not negative is the power of the integer, reduced to the integers of words.
So the power to a sum is the product of the powers in the arithmetic of words, as long as the sum of the exponents is
not reduced itself.
-/
theorem powers_are_exact (m : Machine) (s : State)
    : (∀ a b : Int64, 0 ≤ b.toInt → ∃ w : Int64, m.binaryValues .pow (.int a) (.int b) s = .ok (.int w) s ∧
        w.toInt = (a.toInt ^ b.toInt.toNat).bmod (2 ^ 64)) ∧
      ∀ a b c : Int64, 0 ≤ b.toInt → 0 ≤ c.toInt → b.toInt + c.toInt ≤ Word.greatest →
        ∃ sum left right power : Int64,
          m.binaryValues .add (.int b) (.int c) s = .ok (.int sum) s ∧ sum.toInt = b.toInt + c.toInt ∧
          m.binaryValues .pow (.int a) (.int b) s = .ok (.int left) s ∧
          m.binaryValues .pow (.int a) (.int c) s = .ok (.int right) s ∧
          m.binaryValues .pow (.int a) (.int sum) s = .ok (.int power) s ∧
          m.binaryValues .mul (.int left) (.int right) s = .ok (.int power) s := by
  constructor
  . intro a b hb
    exact ⟨_, binaryValues_pow hb, Word.toInt_hpow a _⟩
  . intro a b c hb hc hfits
    have hsum : (b + c).toInt = b.toInt + c.toInt := by
      apply Word.toInt_add_of_fits _ hfits
      unfold Word.least
      omega
    have hpower : a ^ (b + c).toInt.toNat = a ^ b.toInt.toNat * a ^ c.toInt.toNat := by
      rw [hsum, Int.toNat_add hb hc, Word.hpow_add]
    refine ⟨b + c, _, _, _, ?_, hsum, binaryValues_pow hb, binaryValues_pow hc, binaryValues_pow (by omega), ?_⟩
    . exact Machine.binaryValues_of_apply (Operands.promote?_words b c) rfl
    . rw [hpower]
      exact Machine.binaryValues_of_apply (Operands.promote?_words _ _) rfl

/--
The power `3 ^ 41` is past the words and is the product of `3 ^ 40` and `3` all the same. The greatest exponent is odd.
-/
theorem powers_past_the_words
    : let m := Host.none.machine 3
      let s := Engine.bareState {} .silent 0
      (∃ w : Int64, m.binaryValues .pow (.int 3) (.int 41) s = .ok (.int w) s ∧ w.toInt = -420491770248316829) ∧
      (∃ w : Int64, m.binaryValues .pow (.int (-1)) (.int Int64.maxValue) s = .ok (.int w) s ∧ w.toInt = -1) ∧
      ∃ left right power : Int64,
        m.binaryValues .pow (.int 3) (.int 40) s = .ok (.int left) s ∧
        m.binaryValues .pow (.int 3) (.int 1) s = .ok (.int right) s ∧
        m.binaryValues .pow (.int 3) (.int (40 + 1)) s = .ok (.int power) s ∧
        m.binaryValues .mul (.int left) (.int right) s = .ok (.int power) s := by
  intro m s
  rcases powers_are_exact m s with ⟨hpower, hsum⟩
  refine ⟨hpower 3 41 (by decide), ?_, ?_⟩
  . rcases hpower (-1) Int64.maxValue (by decide) with ⟨w, hrun, hw⟩
    have hodd : Odd Int64.maxValue.toInt.toNat := by decide
    refine ⟨w, hrun, ?_⟩
    rw [hw]
    show ((-1 : Int) ^ Int64.maxValue.toInt.toNat).bmod (2 ^ 64) = -1
    rw [hodd.neg_one_pow]
    rfl
  . rcases hsum 3 40 1 (by decide) (by decide) (by decide) with ⟨sum, left, right, power, hadd, _, hl, hr, hp, hmul⟩
    injection hadd with hadd
    injection hadd with hadd
    rw [← hadd] at hp
    exact ⟨left, right, power, hl, hr, hp, hmul⟩

end Operators

end ScriptEngine
