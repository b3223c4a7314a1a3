import ScriptEngine.Eval.Call
import ScriptEngine.Eval.Exception

/-!
This module contains spawned calls. They run in a context of their own, and a handle keeps how they
ended until they are joined. A spawned call may run at any time until it is joined, next to others; here
it runs as soon as it is spawned.
-/

namespace ScriptEngine

namespace Machine

/-- Calls a value on a thread of its own and gives how the call ended. -/
def runThread (m : Machine) (callee : Value) (args : List Value) : Run (Except Error Value) := do
  let context ← Run.newContext (← Run.position)
  let (result, _) ← Run.inContext context (Run.capture (Run.locating (m.invoke callee .undefined args)))
  match result with
  | .ok outcome => return outcome
  | .error .died => return .error (.ofCause (.internal "spawned thread exited without a result"))
  | .error halt => throw halt

/-- Spawns a call and gives its handle. -/
def startThread (m : Machine) (callee : Value) (args : List Value) : Run Value := do
  if !(← Run.isCallable callee) then
    Run.notCallable callee
  else
    let outcome ← m.spawn callee args
    let threadType := (← Run.getWorld).threadType
    let handle ← Run.alloc (·.newInstance threadType .empty)
    Run.modifyHeap (·.setReserved handle (.outcome outcome))
    return .object handle

end Machine

namespace Run

/-- How the call behind a handle ended. -/
def threadOutcome (handle : Handle) : Run (Except Error Value) := do
  match (← getHeap).reserved? handle with
  | some (.outcome result) => return result
  | _ => raise (.internal "Thread object without join state")

/-- The value of a spawned call. Its error is raised as a failure of the thread. -/
def joinThread (handle : Handle) : Run Value := do
  match ← threadOutcome handle with
  | .ok value => return value
  | .error e => raiseError (← threadFailure e)

/-- The exception of a spawned call, or nothing. -/
def threadError (handle : Handle) : Run Value := do
  match ← threadOutcome handle with
  | .ok _ => return .nil
  | .error e => exceptionValue e

/-- Joins the call behind a value that has to be a handle. -/
def joinValue (value : Value) : Run Value :=
  match value with
  | .object handle => joinThread handle
  | other => mismatch "a Thread handle" other

end Run

end ScriptEngine
