import ScriptEngine.Fault.Cause
import ScriptEngine.Tree.Position
import ScriptEngine.Value.Basic

/-!
This module contains errors: a cause, where it arose, and what is known beside it.
-/

namespace ScriptEngine

/-- A remark on an error. -/
structure Note where
  message : String
  position : Option Position
deriving Inhabited

/-- A function that was active when an error arose, and the place it had reached. -/
structure Activation where
  function : String
  position : Position
deriving DecidableEq, Inhabited

namespace Activation

/-- The line of a backtrace that stands for an activation. -/
def line (a : Activation) : String :=
  "  " ++ a.position.fileName ++ " line " ++ toString a.position.line ++ " (" ++ a.function ++ ")\n"

/-- The text of a backtrace. -/
def lines (backtrace : List Activation) : String := String.join (backtrace.map line)

end Activation

structure Error where
  cause : Cause
  message : String
  /-- The value that was raised. -/
  payload : Option Value
  position : Option Position
  /-- The active functions, innermost first. -/
  backtrace : Option (List Activation)
  notes : List Note
deriving Inhabited

namespace Error

def ofCause (cause : Cause) : Error := ⟨cause, cause.message, none, none, none, []⟩

/-- The error of a raised value, worded as the text of the value. -/
def thrown (message : String) (value : Value) : Error :=
  { ofCause .thrown with message := message, payload := some value }

/--
The error of a spawned call where it is joined. It can be handled whatever the cause was; `payload`
is the raised value or the exception object of the error inside.
-/
def threadFailed (inner : Error) (payload : Value) : Error :=
  { ofCause .threadFailed with
    message := inner.message
    payload := some payload
    notes := (inner.position.map fun pos => ⟨"raised in spawned thread", some pos⟩).toList }

def isFatal (e : Error) : Bool := e.cause.isFatal

def withNote (e : Error) (note : Note) : Error := { e with notes := e.notes ++ [note] }

/--
Adds a position and a backtrace to an error that has none. The backtrace is worked out only if it is
needed.
-/
def locate (e : Error) (pos : Position) (backtrace : Unit → List Activation) : Error :=
  { e with
    position := some (e.position.getD pos)
    backtrace :=
      match e.backtrace with
      | some known => some known
      | none => some (backtrace ()) }

/-- The part of a report that says where an error arose. -/
def place (e : Error) : String :=
  match e.position with
  | some pos => " (at " ++ pos.text ++ ")"
  | none => ""

/-- The message with the position and the backtrace. -/
def messageWithStack (e : Error) : String :=
  let stack :=
    match e.backtrace with
    | some (a :: rest) => "\nstack:\n" ++ Activation.lines (a :: rest)
    | _ => ""
  e.message ++ e.place ++ stack

end Error

end ScriptEngine
