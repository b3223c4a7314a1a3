import ScriptEngine.Eval.Iterate
import ScriptEngine.Proofs.Words

/-!
This module contains loops over ranges: how many words a loop visits before its condition or the greatest word ends it,
and that it visits these words one after the other.
-/

namespace ScriptEngine

namespace Machine

variable {σ : Type} {current last : Int64} {inclusive : Bool}

/-- The number of words of a range. -/
def rangeSize (first last : Int64) (inclusive : Bool) : Nat :=
  (last.toInt - first.toInt + if inclusive then 1 else 0).toNat

/-- The loop goes on as long as there are words left. -/
theorem goesOn_iff : current < last ∨ inclusive = true ∧ current = last ↔ 0 < rangeSize current last inclusive := by
  rw [Int64.lt_iff_toInt_lt, ← Int64.toInt_inj]
  unfold rangeSize
  cases inclusive with
  | true =>
    simp only [reduceIte, true_and]
    omega
  | false =>
    simp only [Bool.false_eq_true, reduceIte, false_and, or_false]
    omega

/-- The next word is one more, and there is one word less from it on. -/
theorem rangeSize_next {next : Int64} (h : Word.checkedAdd current 1 = some next)
    (hsize : 0 < rangeSize current last inclusive)
    : next = current + 1 ∧ rangeSize current last inclusive = rangeSize next last inclusive + 1 := by
  have hnext := Word.checkedAdd_eq_some_iff.mp h
  rw [Int64.toInt_one] at hnext
  have hleast := Word.least_le next
  have hgreatest := Word.le_greatest next
  constructor
  . rw [← Int64.toInt_inj, hnext, Word.toInt_add_of_fits]
    . rw [Int64.toInt_one]
    . rw [Int64.toInt_one]
      omega
    . rw [Int64.toInt_one]
      omega
  . unfold rangeSize at hsize ⊢
    rw [hnext]
    omega

/-- The greatest word is the last one of its range. -/
theorem rangeSize_greatest (h : Word.checkedAdd current 1 = none) (hsize : 0 < rangeSize current last inclusive)
    : rangeSize current last inclusive = 1 := by
  have hcurrent := Word.ofInt?_eq_none_iff.mp h
  rw [Int64.toInt_one] at hcurrent
  have hleast := Word.least_le current
  have hlast := Word.le_greatest last
  have hone : (if inclusive then 1 else 0 : Int) ≤ 1 := by split <;> decide
  unfold rangeSize at hsize ⊢
  omega

/-- With enough fuel, the loop visits as many words as there are left, one after the other. -/
theorem visitRange_go_eq (visit : σ → Value → Value → Run (Visit σ)) (acc : σ) (index : Int64) {fuel : Nat}
    (h : rangeSize current last inclusive ≤ fuel)
    : visitRange.go visit last inclusive fuel acc index current =
        visitWords visit acc (rangeSize current last inclusive) index current := by
  induction fuel generalizing acc index current with
  | zero =>
    rw [Nat.le_zero.mp h]
    rfl
  | succ fuel ih =>
    unfold visitRange.go
    by_cases hsize : 0 < rangeSize current last inclusive
    . rw [if_pos (goesOn_iff.mpr hsize)]
      cases hnext : Word.checkedAdd current 1 with
      | none =>
        rw [rangeSize_greatest hnext hsize]
        rfl
      | some next =>
        rcases rangeSize_next hnext hsize with ⟨hword, hcount⟩
        have hrest (acc : σ) := ih acc (index + 1) (Nat.le_of_succ_le_succ (hcount ▸ h))
        rw [hcount, visitWords, ← hword]
        congr 1
        funext visited
        cases visited with
        | stop acc => rfl
        | next acc => exact hrest acc
    . rw [if_neg (mt goesOn_iff.mp hsize), Nat.eq_zero_of_not_pos hsize]
      rfl

/-- The loop over a range visits all its words. The fuel that it is given never runs out before. -/
theorem visitRange_eq (visit : σ → Value → Value → Run (Visit σ)) (acc : σ) (first last : Int64) (inclusive : Bool)
    : visitRange visit acc first last inclusive =
        visitWords visit acc (rangeSize first last inclusive) 0 first := by
  apply visitRange_go_eq
  unfold rangeSize
  split <;> omega

end Machine

end ScriptEngine
