import ScriptEngine.Number.Word
import ScriptEngine.State.Machine

/-!
This module contains the objects that scripts see of an error.
-/

namespace ScriptEngine

namespace Run

/-- An active function as the script sees it: file, line and name. -/
def activationValue (a : Activation) : Run Value :=
  newArray #[.str a.position.fileName, .int (Word.ofNat a.position.line), .str a.function]

/-- The object that a handler gets: the message, the backtrace, and the raised value if there is one. -/
def exceptionValue (e : Error) : Run Value := do
  let stack ← (e.backtrace.getD []).mapM activationValue
  let stack ← newArray stack.toArray
  let payload := e.payload.toList.map fun value => ("value", value)
  newObject ([("message", .str e.message), ("stack", stack)] ++ payload)

/-- The error of a spawned call where it is joined. -/
def threadFailure (inner : Error) : Run Error := do
  match inner.payload with
  | some payload => return .threadFailed inner payload
  | none => return .threadFailed inner (← exceptionValue inner)

end Run

end ScriptEngine
