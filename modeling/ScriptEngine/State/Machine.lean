import ScriptEngine.State.Frames

/-!
This module contains what the rules of evaluation call back into. The rules are written one by one
over a `Machine`, and the engine ties them together.
-/

namespace ScriptEngine

structure Machine where
  /-- How many more times a loop may go round, and how deep values may be nested. -/
  fuel : Nat
  /-- Evaluates an expression. -/
  eval : Expr → Run Value
  /-- Runs a statement. -/
  exec : Stmt → Run Unit
  /-- Calls a value with a receiver and arguments. -/
  invoke : Value → Value → List Value → Run Value
  /--
  Runs calls that were put off until a frame ended and gives the first error. The values that were
  raised in the frame are held on to meanwhile.
  -/
  release : List Value → List Deferred → Run (Option Error)
  /-- Calls a value on a thread of its own and gives how the call ended. -/
  spawn : Value → List Value → Run (Except Error Value)
  /-- Runs a function of the host with a receiver and arguments. -/
  native : HostCall → Value → List Value → Run Value
  /-- Loads a module by its name, given the timestamp of the loaded one. -/
  importer : Option (String → Int64 → Run (Option Module))

/-- Evaluates an operand, which is held on to while the rest is evaluated. -/
def Machine.evalHeld (m : Machine) (e : Expr) : Run Value := do
  let value ← m.eval e
  Run.hold value
  return value

/--
Evaluates an expression that stands where a type has to be, which is held on to. A type that was read
from an object comes bound to that object.
-/
def Machine.evalType (m : Machine) (expected : String) (e : Expr) : Run TypeRef := do
  let value := (← m.eval e).unbind
  Run.hold value
  match value with
  | .type type => return type
  | other => Run.mismatch expected other

/-- The machine that has no steps left. -/
def Machine.spent : Machine where
  fuel := 0
  eval _ := Run.exhausted
  exec _ := Run.exhausted
  invoke _ _ _ := Run.exhausted
  release _ _ := Run.exhausted
  spawn _ _ := Run.exhausted
  native _ _ _ := Run.exhausted
  importer := some fun _ _ => Run.exhausted

end ScriptEngine
