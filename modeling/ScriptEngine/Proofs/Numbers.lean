import ScriptEngine.Eval.Operators
import ScriptEngine.Proofs.Run

/-!
This module contains how operators on two numbers end: as the arithmetic on the numbers does, and in the state that
they start in.
-/

namespace ScriptEngine

namespace Operands

theorem promote?_words (a b : Int64) : promote? (.int a) (.int b) = some (.words a b) := rfl

/-- Whether a value is of a type is no question of arithmetic. -/
theorem ne_is_of_apply {op : BinaryOp} {operands : Operands} {precision : Nat}
    (h : operands.apply precision op ≠ .ok none)
    : op ≠ .is := by
  rintro rfl
  cases operands <;> exact h rfl

end Operands

namespace Machine

variable {m : Machine} {op : BinaryOp} {left right : Value} {operands : Operands} {s : State}

theorem builtinBinary?_of_promote? (h : Operands.promote? left right = some operands)
    : m.builtinBinary? op left right s = Run.ofExcept (operands.apply s.world.settings.precision op) s := by
  unfold builtinBinary?
  rw [h]
  rfl

/-- What arithmetic gives is what the operator gives, and no hook is asked. -/
theorem binaryValues_of_apply {value : Value} (h : Operands.promote? left right = some operands)
    (happly : operands.apply s.world.settings.precision op = .ok (some value))
    : m.binaryValues op left right s = .ok value s := by
  have hop : op ≠ .is := Operands.ne_is_of_apply (by rw [happly]; nofun)
  have hbuiltin : m.builtinBinary? op left right s = .ok (some value) s := by
    rw [builtinBinary?_of_promote? h, happly]
    rfl
  unfold binaryValues
  rw [beq_false_of_ne hop]
  show (m.builtinBinary? op left right >>= _) s = _
  rw [Run.bind_ok hbuiltin]
  rfl

theorem binaryValues_of_failed {cause : Cause} (h : Operands.promote? left right = some operands)
    (happly : operands.apply s.world.settings.precision op = .error cause)
    : m.binaryValues op left right s = .error (.raised (.ofCause cause)) s := by
  have hop : op ≠ .is := Operands.ne_is_of_apply (by rw [happly]; nofun)
  have hbuiltin : m.builtinBinary? op left right s = .error (.raised (.ofCause cause)) s := by
    rw [builtinBinary?_of_promote? h, happly]
    rfl
  unfold binaryValues
  rw [beq_false_of_ne hop]
  exact Run.bind_error hbuiltin

end Machine

end ScriptEngine
