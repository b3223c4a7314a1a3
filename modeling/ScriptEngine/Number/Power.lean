/-!
This module contains the powers that numbers are scaled with.
-/

namespace ScriptEngine

/-- The power `2 ^ n`. -/
def twoPow (n : Nat) : Nat := Nat.pow 2 n

/-- The power `10 ^ n`. -/
def tenPow (n : Nat) : Nat := Nat.pow 10 n

theorem tenPow_pos (n : Nat) : 0 < tenPow n := Nat.pow_pos (by decide)

theorem tenPow_succ (n : Nat) : tenPow (n + 1) = tenPow n * 10 := rfl

end ScriptEngine
