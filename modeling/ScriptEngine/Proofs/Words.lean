import ScriptEngine.Number.Word

/-!
This module contains the integers that words stand for: which integers have a word, when a sum that is formed with
words is the sum of the integers, and which digits are read as a word.
-/

namespace ScriptEngine

namespace Word

variable {w : Int64}

theorem least_le (w : Int64) : least ≤ w.toInt := w.le_toInt

theorem le_greatest (w : Int64) : w.toInt ≤ greatest := Int.le_of_lt_add_one w.toInt_lt

theorem toInt_ofInt {value : Int} (hleast : least ≤ value) (hgreatest : value ≤ greatest)
    : (Int64.ofInt value).toInt = value :=
  Int64.toInt_ofInt_of_le hleast (Int.lt_add_one_of_le hgreatest)

/-- The word of an integer stands for it, and there is none for an integer that does not fit. -/
theorem ofInt?_eq_some_iff {value : Int} : ofInt? value = some w ↔ w.toInt = value := by
  unfold ofInt?
  constructor
  . intro h
    split at h
    . next hfits =>
      injection h with h
      rw [← h]
      exact toInt_ofInt hfits.1 hfits.2
    . cases h
  . intro h
    rw [← h, if_pos ⟨least_le w, le_greatest w⟩, Int64.ofInt_toInt]

theorem ofInt?_eq_none_iff {value : Int} : ofInt? value = none ↔ value < least ∨ greatest < value := by
  unfold ofInt?
  split
  . next hfits =>
    constructor
    . intro h
      cases h
    . intro h
      omega
  . next hfits =>
    constructor
    . intro _
      omega
    . intro _
      rfl

theorem checkedAdd_eq_some_iff {a b : Int64} : checkedAdd a b = some w ↔ w.toInt = a.toInt + b.toInt :=
  ofInt?_eq_some_iff

/-- The wrapped sum of two words is their sum if that is one of a word. -/
theorem toInt_add_of_fits {a b : Int64} (hleast : least ≤ a.toInt + b.toInt) (hgreatest : a.toInt + b.toInt ≤ greatest)
    : (a + b).toInt = a.toInt + b.toInt := by
  unfold least at hleast
  unfold greatest at hgreatest
  rw [Int64.toInt_add]
  apply Int.bmod_eq_of_le
  . omega
  . omega

theorem toInt_ofNat_of_le {count : Nat} (h : (count : Int) ≤ greatest) : (Int64.ofNat count).toInt = count := by
  apply Int64.toInt_ofNat_of_lt
  unfold greatest at h
  omega

/-- The word of a count stands for it, up to the greatest word. -/
theorem toInt_ofNat (count : Nat) : (ofNat count).toInt = min (count : Int) greatest := by
  unfold ofNat
  split
  . next hfits => rw [toInt_ofNat_of_le hfits, Int.min_eq_left hfits]
  . next hlong =>
    rw [Int.min_eq_right (by omega)]
    rfl

theorem add_one_add_ofNat (word : Int64) (k : Nat) : word + 1 + Int64.ofNat k = word + Int64.ofNat (k + 1) := by
  rw [Int64.ofNat_add, Int64.add_assoc, Int64.add_comm 1]
  rfl

/-- The word so many after another one stands for the sum if that is one of a word. -/
theorem toInt_add_ofNat {k : Nat} (h : w.toInt + k ≤ greatest) : (w + Int64.ofNat k).toInt = w.toInt + k := by
  have hleast := w.le_toInt
  unfold greatest at h
  have hk : (Int64.ofNat k).toInt = (k : Int).bmod (2 ^ 64) := Int64.toInt_ofNat'
  rw [Int64.toInt_add, hk, Int.add_bmod_bmod]
  apply Int.bmod_eq_of_le
  . omega
  . omega

/-- A length is added to negative indices only, so the sum is always a word. -/
theorem fromStart?_eq_some (index : Int64) (length : Nat)
    : ∃ w, fromStart? index length = some w ∧
        w.toInt = if index < 0 then index.toInt + min (length : Int) greatest else index.toInt := by
  unfold fromStart?
  split
  . next hneg =>
    have hneg : index.toInt < 0 := Int64.lt_iff_toInt_lt.mp hneg
    have hleast := least_le index
    unfold checkedAdd
    rw [toInt_ofNat]
    refine ⟨Int64.ofInt (index.toInt + min (length : Int) greatest), ?_, ?_⟩
    . rw [ofInt?_eq_some_iff]
      apply toInt_ofInt
      . unfold greatest
        omega
      . omega
    . apply toInt_ofInt
      . unfold greatest
        omega
      . omega
  . exact ⟨index, rfl, rfl⟩

theorem fromStart_eq (index : Int64) (length : Nat)
    : fromStart index length = if index < 0 then index.toInt + length else index.toInt := by
  unfold fromStart
  split
  . next hlength =>
    rcases fromStart?_eq_some index length with ⟨w, hw, hvalue⟩
    rw [hw, Option.map_some, Option.getD_some, hvalue, Int.min_eq_left hlength]
  . rfl

theorem digits?_go_eq {cs : List Char} (h : ∀ c ∈ cs, c.isDigit = true) (acc : Nat)
    : digits?.go acc cs = some (Nat.ofDigitChars 10 cs acc) := by
  induction cs generalizing acc with
  | nil => rfl
  | cons c cs ih =>
    unfold digits?.go
    rw [if_pos (h c List.mem_cons_self), ih fun d hd => h d (List.mem_cons_of_mem c hd), Nat.ofDigitChars_cons]
    rfl

/-- Digits that were written are read back. -/
theorem digits?_toDigits (n : Nat) : digits? (Nat.toDigits 10 n) = some n := by
  have hdigit (c : Char) (hc : c ∈ Nat.toDigits 10 n) : c.isDigit = true :=
    Nat.isDigit_of_mem_toDigits (by omega) (Nat.le_refl 10) hc
  have hsome : (Nat.toDigits 10 n).isEmpty = false := by
    rw [List.isEmpty_eq_false_iff]
    exact List.ne_nil_of_length_pos Nat.length_toDigits_pos
  unfold digits?
  rw [hsome, digits?_go_eq hdigit, Nat.ofDigitChars_ten_toDigits]
  rfl

theorem read?_of_digits {cs : List Char} (h : ∀ c ∈ cs, c.isDigit = true)
    : read? (String.ofList cs) = (digits? cs).bind fun n => ofInt? n := by
  unfold read?
  rw [String.toList_ofList]
  split
  . next cs => exact absurd (h '+' List.mem_cons_self) (by decide)
  . next cs => exact absurd (h '-' List.mem_cons_self) (by decide)
  . rfl

end Word

end ScriptEngine
