import ScriptEngine.Proofs.Visits

/-!
This module contains the words of ranges. A range has the words from a first one on in equal steps, up to a last one,
and all of them stand for the integers that they should: no sum is formed that is not a word, also if a bound is the
least or the greatest word. Loops over ranges and the function that makes arrays of ranges agree on them.
-/

namespace ScriptEngine

/-- Words in equal steps from a first integer on, as long as a condition holds of the integers that they stand for. -/
structure Reached (first step : Int) (goesOn : Int → Prop) (words : List Int64) : Prop where
  length_iff (k : Nat) : k < words.length ↔ goesOn (first + k * step)
  value {k : Nat} {w : Int64} (hw : words[k]? = some w) : w.toInt = first + k * step

section Reached

variable {first step : Int} {goesOn : Int → Prop} {words : List Int64}

theorem Reached.unique {words' : List Int64} (h : Reached first step goesOn words)
    (h' : Reached first step goesOn words')
    : words = words' := by
  have hlength (k : Nat) : k < words.length ↔ k < words'.length := (h.length_iff k).trans (h'.length_iff k).symm
  apply List.ext_getElem?
  intro k
  by_cases hk : k < words.length
  . have hw := List.getElem?_eq_getElem hk
    have hw' := List.getElem?_eq_getElem ((hlength k).mp hk)
    rw [hw, hw', Option.some.injEq, ← Int64.toInt_inj, h.value hw, h'.value hw']
  . have hk' : ¬k < words'.length := fun hk' => hk ((hlength k).mpr hk')
    rw [List.getElem?_eq_none (Nat.le_of_not_lt hk), List.getElem?_eq_none (Nat.le_of_not_lt hk')]

/-- In steps of one, all integers from the first one on are reached as long as the condition holds. -/
theorem Reached.mem_iff (h : Reached first 1 goesOn words) (value : Int)
    : (∃ w ∈ words, w.toInt = value) ↔ first ≤ value ∧ goesOn value := by
  constructor
  . intro ⟨w, hmem, hvalue⟩
    rcases List.getElem?_of_mem hmem with ⟨k, hk⟩
    have hlt : k < words.length := (List.getElem?_eq_some_iff.mp hk).1
    have hgoesOn := (h.length_iff k).mp hlt
    rw [← h.value hk, hvalue] at hgoesOn
    have hreached := h.value hk
    exact ⟨by omega, hgoesOn⟩
  . intro ⟨hle, hgoesOn⟩
    have hvalue : first + ((value - first).toNat : Int) * 1 = value := by omega
    rw [← hvalue, ← h.length_iff] at hgoesOn
    refine ⟨words[(value - first).toNat], List.getElem_mem hgoesOn, ?_⟩
    rw [h.value (List.getElem?_eq_getElem hgoesOn), hvalue]

theorem Reached.pairwise_lt (h : Reached first 1 goesOn words) : words.Pairwise (· < ·) := by
  rw [List.pairwise_iff_getElem]
  intro i j hi hj hlt
  rw [Int64.lt_iff_toInt_lt, h.value (List.getElem?_eq_getElem hi), h.value (List.getElem?_eq_getElem hj)]
  omega

theorem Reached.nil (h : ∀ k : Nat, ¬goesOn (first + k * step)) : Reached first step goesOn [] where
  length_iff k := iff_of_false (Nat.not_lt_zero k) (h k)
  value hw := nomatch hw

theorem Reached.cons {w : Int64} (hfirst : w.toInt = first) (hgoesOn : goesOn first)
    (h : Reached (first + step) step goesOn words)
    : Reached first step goesOn (w :: words) := by
  have hsucc (k : Nat) : first + ((k + 1 : Nat) : Int) * step = first + step + k * step := by
    rw [Int.natCast_succ, Int.add_mul, Int.one_mul, Int.add_assoc, Int.add_comm (k * step)]
  constructor
  case length_iff =>
    intro k
    cases k with
    | zero =>
      rw [Int.natCast_zero, Int.zero_mul, Int.add_zero]
      exact iff_of_true (Nat.zero_lt_succ _) hgoesOn
    | succ k =>
      rw [hsucc, ← h.length_iff]
      exact Nat.succ_lt_succ_iff
  case value =>
    intro k w' hw
    cases k with
    | zero =>
      injection hw with hw
      rw [← hw, hfirst, Int.natCast_zero, Int.zero_mul, Int.add_zero]
    | succ k =>
      rw [hsucc]
      exact h.value hw

end Reached

namespace Library

/-- Whether steps that have come to a value have not yet come to the last one. -/
def Before (last step value : Int) : Prop := 0 < step ∧ value < last ∨ step < 0 ∧ last < value

instance (last step value : Int) : Decidable (Before last step value) := inferInstanceAs (Decidable (_ ∨ _))

/-- How far it is to the last value, in the direction of the steps. -/
def distance (last step value : Int) : Nat := if 0 < step then (last - value).toNat else (value - last).toNat

variable {last step : Int64}

theorem not_before_of_le {last step value : Int} (h : ¬Before last step value) (k : Nat)
    : ¬Before last step (value + k * step) := by
  unfold Before at h ⊢
  intro hlater
  rcases hlater with ⟨hpos, hlt⟩ | ⟨hneg, hlt⟩
  . have hmul : 0 ≤ (k : Int) * step := Int.mul_nonneg (Int.natCast_nonneg k) (Int.le_of_lt hpos)
    omega
  . have hmul : (k : Int) * step ≤ 0 := Int.mul_nonpos_of_nonneg_of_nonpos (Int.natCast_nonneg k) (Int.le_of_lt hneg)
    omega

theorem distance_lt {last step value : Int} (h : Before last step value)
    : distance last step (value + step) < distance last step value := by
  unfold Before at h
  unfold distance
  split <;> omega

/-- The value after a last word that the next step would leave is past every bound. -/
theorem not_before_of_overflow {i : Int64} (h : Word.checkedAdd i step = none)
    : ¬Before last.toInt step.toInt (i.toInt + step.toInt) := by
  have hi := Word.least_le i
  have hi' := Word.le_greatest i
  have hlast := Word.least_le last
  have hlast' := Word.le_greatest last
  have hover := Word.ofInt?_eq_none_iff.mp h
  unfold Before
  omega

theorem range_go_reached (fuel : Nat) (i : Int64) (out : Array Value)
    (hfuel : distance last.toInt step.toInt i.toInt < fuel)
    : ∃ words, (range.go last step fuel i out).toList = out.toList ++ words.map Value.int ∧
        Reached i.toInt step.toInt (Before last.toInt step.toInt) words := by
  induction fuel generalizing i out with
  | zero => cases hfuel
  | succ fuel ih =>
    have hbefore : 0 < step ∧ i < last ∨ step < 0 ∧ last < i ↔ Before last.toInt step.toInt i.toInt := by
      simp only [Before, Int64.lt_iff_toInt_lt, Int64.toInt_zero]
    unfold range.go
    by_cases hi : Before last.toInt step.toInt i.toInt
    . rw [if_pos (hbefore.mpr hi)]
      cases hnext : Word.checkedAdd i step with
      | none =>
        refine ⟨[i], Array.toList_push, .cons rfl hi (.nil ?_)⟩
        exact not_before_of_le (not_before_of_overflow hnext)
      | some next =>
        have hvalue := Word.checkedAdd_eq_some_iff.mp hnext
        have hlt := distance_lt hi
        rw [← hvalue] at hlt
        rcases ih next (out.push (.int i)) (by omega) with ⟨words, hwords, hreached⟩
        rw [hvalue] at hreached
        refine ⟨i :: words, ?_, .cons rfl hi hreached⟩
        rw [hwords, Array.toList_push, List.append_assoc]
        rfl
    . rw [if_neg (mt hbefore.mp hi)]
      exact ⟨[], (List.append_nil _).symm, .nil (not_before_of_le hi)⟩

/-- The words of a range are those before its last bound. -/
theorem range_reached (first last step : Int64)
    : ∃ words, (range first last step).toList = words.map Value.int ∧
        Reached first.toInt step.toInt (Before last.toInt step.toInt) words := by
  have hfuel : distance last.toInt step.toInt first.toInt < (last.toInt - first.toInt).natAbs + 1 := by
    unfold distance
    split <;> omega
  exact range_go_reached _ first #[] hfuel

/-- A range with a step that is not zero is a new array. -/
theorem runBuiltin_range {m : Machine} {s : State} (first last : Int64) (hstep : step ≠ 0)
    : runBuiltin m .range [.int first, .int last, .int step] s = Run.newArray (range first last step) s := by
  show (if step == 0 then (Run.fail "range step must not be 0" : Run Value)
    else Run.newArray (range first last step)) s = _
  rw [beq_false_of_ne hstep]
  rfl

end Library

section Loops

variable {σ : Type} {m : Machine} {first last : Int64} {inclusive : Bool} {goesOn : Int → Prop}

/-- So many words from a first one on. -/
def wordsFrom (first : Int64) (n : Nat) : List Int64 := (List.range n).map fun k => first + Int64.ofNat k

theorem wordsFrom_succ (first : Int64) (n : Nat) : wordsFrom first (n + 1) = first :: wordsFrom (first + 1) n := by
  unfold wordsFrom
  rw [List.range_succ_eq_map, List.map_cons, List.map_map]
  congr 1
  . exact Int64.add_zero first
  . apply List.map_congr_left
    intro k _
    exact (Word.add_one_add_ofNat first k).symm

theorem length_wordsFrom (first : Int64) (n : Nat) : (wordsFrom first n).length = n := by
  unfold wordsFrom
  rw [List.length_map, List.length_range]

theorem getElem?_wordsFrom {n k : Nat} (h : k < n) : (wordsFrom first n)[k]? = some (first + Int64.ofNat k) := by
  unfold wordsFrom
  rw [List.getElem?_map, List.getElem?_range h]
  rfl

/-- The words that a loop over a range goes through. -/
theorem wordsFrom_reached (first last : Int64) (inclusive : Bool)
    : Reached first.toInt 1 (fun value => value < last.toInt ∨ inclusive = true ∧ value = last.toInt)
        (wordsFrom first (Machine.rangeSize first last inclusive)) := by
  have hsize (k : Nat) : k < Machine.rangeSize first last inclusive ↔
      first.toInt + k < last.toInt ∨ inclusive = true ∧ first.toInt + k = last.toInt := by
    unfold Machine.rangeSize
    cases inclusive with
    | true =>
      simp only [reduceIte, true_and]
      omega
    | false =>
      simp only [Bool.false_eq_true, reduceIte, false_and, or_false]
      omega
  constructor
  case length_iff =>
    intro k
    rw [Int.mul_one, length_wordsFrom, hsize]
  case value =>
    intro k w hw
    have hlt : k < Machine.rangeSize first last inclusive := by
      rw [← length_wordsFrom first (Machine.rangeSize first last inclusive)]
      exact (List.getElem?_eq_some_iff.mp hw).1
    rw [getElem?_wordsFrom hlt, Option.some.injEq] at hw
    rw [hsize] at hlt
    rw [← hw, Int.mul_one]
    apply Word.toInt_add_ofNat
    have hlast := Word.le_greatest last
    omega

theorem iterate_range {fe le : Expr} {s t u : State} (hfirst : m.eval fe s = .ok (.int first) t)
    (hlast : m.eval le t = .ok (.int last) u) (visit : σ → Value → Value → Run (Visit σ)) (acc : σ)
    : m.iterate (.range fe le inclusive) visit acc s =
        Machine.visitWords visit acc (Machine.rangeSize first last inclusive) 0 first u := by
  rw [← Machine.visitRange_eq]
  unfold Machine.iterate
  dsimp only
  rw [Run.bind_ok hfirst]
  show (m.eval le >>= _) t = _
  rw [Run.bind_ok hlast]
  rfl

/-- A visitor that collects what it is given. -/
def collect (out : Array Value) (_ item : Value) : Run (Visit (Array Value)) := return .next (out.push item)

theorem visitWords_collect (out : Array Value) (n : Nat) (index word : Int64) (s : State)
    : Machine.visitWords collect out n index word s = .ok (out ++ ((wordsFrom word n).map Value.int).toArray) s := by
  induction n generalizing out index word with
  | zero => exact congrArg (EStateM.Result.ok · s) Array.append_empty.symm
  | succ n ih =>
    have hstep : Machine.visitWords collect out (n + 1) index word s =
        Machine.visitWords collect (out.push (.int word)) n (index + 1) (word + 1) s := rfl
    rw [hstep, ih, wordsFrom_succ, List.map_cons, List.toArray_cons, Array.push_eq_append, Array.append_assoc]

/-- The array of a range in steps of one has the words that a loop goes through. -/
theorem range_eq_wordsFrom (first last : Int64)
    : Library.range first last 1 =
        ((wordsFrom first (Machine.rangeSize first last false)).map Value.int).toArray := by
  rcases Library.range_reached first last 1 with ⟨words, hwords, hreached⟩
  have hbefore : Library.Before last.toInt (1 : Int64).toInt =
      fun value => value < last.toInt ∨ false = true ∧ value = last.toInt := by
    funext value
    unfold Library.Before
    rw [Int64.toInt_one]
    simp only [eq_iff_iff, Bool.false_eq_true, false_and, or_false]
    omega
  rw [hbefore] at hreached
  rw [← Array.toList_inj, hwords, hreached.unique (wordsFrom_reached first last false)]

/-- A loop over a range visits its words in order, with their distances from the first one if these are words. -/
theorem visitWords_course (visit : σ → Value → Value → Run (Visit σ)) {words : List Int64} {n : Nat}
    (hn : words = wordsFrom first n) (hreached : Reached first.toInt 1 goesOn words) (acc : σ) (s : State)
    : ∃ calls outcome, Course visit words.length
        (fun k _ index item => ∃ w, words[k]? = some w ∧ item = .int w ∧
          (w.toInt - first.toInt ≤ Word.greatest → ∃ i : Int64, i.toInt = w.toInt - first.toInt ∧ index = .int i))
        acc s (Machine.visitWords visit acc n 0 first s) calls outcome := by
  have hlength : words.length = n := by rw [hn, length_wordsFrom]
  rcases visitWords_iterates visit acc n 0 first s with ⟨calls, outcome, hcourse⟩
  rw [hlength]
  refine ⟨calls, outcome, hcourse.mono ?_⟩
  intro k now index item hk ⟨hindex, hitem⟩
  have hw : words[k]? = some (first + Int64.ofNat k) := by rw [hn, getElem?_wordsFrom hk]
  have hvalue := hreached.value hw
  refine ⟨first + Int64.ofNat k, hw, hitem, ?_⟩
  intro hword
  have hword : (k : Int) ≤ Word.greatest := by omega
  rw [Int64.zero_add] at hindex
  refine ⟨Int64.ofNat k, ?_, hindex⟩
  rw [Word.toInt_ofNat_of_le hword]
  omega

end Loops

end ScriptEngine
