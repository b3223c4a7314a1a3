/-!
This module contains the reasons for which an evaluation ends early, with the wording of each.
-/

namespace ScriptEngine

/-- The statements that leave a loop. -/
inductive Jump where
  | breakLoop
  | continueLoop
deriving DecidableEq, Inhabited

def Jump.keyword : Jump → String
  | .breakLoop => "break"
  | .continueLoop => "continue"

inductive Cause where
  | divisionByZero
  | repeatTooLarge (count : Int64) (limit : Nat)
  | typeMismatch (expected : String) (got : String)
  | operandMismatch (verb : String) (left : String) (right : String)
  | notCallable (typeName : String)
  | notIterable (typeName : String)
  | unboundVariable (name : String)
  | redefinedVariable (name : String)
  | indexOutOfBounds (index : Int64) (length : Nat)
  | invalidKeyword (keyword : String) (callee : String)
  | tooManyCalls (limit : Nat)
  /-- A value that the script raised. -/
  | thrown
  | assertion (message : String)
  | missingModule (module : String)
  /-- A failure of a spawned call, raised where it is joined. -/
  | threadFailed
  /-- A failure that the host reports. -/
  | host (message : String)
  | misplacedExport
  | unmatchedJump (jump : Jump) (label : Option String)
  | deferNotCallable
  | internal (message : String)
deriving DecidableEq, Inhabited

namespace Cause

/-- Whether no handler of the script may intercept the failure. -/
def isFatal : Cause → Bool
  | misplacedExport | unmatchedJump .. | deferNotCallable | internal _ => true
  | _ => false

/-- The wording of a cause. -/
def message : Cause → String
  | divisionByZero => "division by zero"
  | repeatTooLarge count limit =>
    "repeat count " ++ toString count.toInt ++ " exceeds the " ++ toString limit ++ " element limit"
  | typeMismatch expected got => "value requires " ++ expected ++ ", got " ++ got
  | operandMismatch verb left right => "Cannot " ++ verb ++ " between " ++ left ++ " and " ++ right
  | notCallable typeName => typeName ++ " is not callable"
  | notIterable typeName => typeName ++ " is not iterable"
  | unboundVariable name => "variable " ++ name ++ " not exists"
  | redefinedVariable name => "variable " ++ name ++ " redefined"
  | indexOutOfBounds index length =>
    "index " ++ toString index.toInt ++ " out of range (length " ++ toString length ++ ")"
  | invalidKeyword keyword callee => "'" ++ keyword ++ "' is an invalid keyword argument for " ++ callee
  | tooManyCalls limit => "maximum call depth exceeded (limit: " ++ toString limit ++ ")"
  | thrown => "exception raised"
  | assertion message => "Assertion fail! " ++ message
  | missingModule module => "ImportError: module " ++ module ++ " not exists"
  | threadFailed => "spawned thread failed"
  | host message => message
  | misplacedExport => "export must be in module top block"
  | unmatchedJump jump (some label) => jump.keyword ++ " to unknown label " ++ label
  | unmatchedJump jump none => jump.keyword ++ " outside of a loop"
  | deferNotCallable => "defer call not callable"
  | internal message => "internal error: " ++ message

/-- A unary operator was given an operand that it does not take. -/
def unaryMismatch (symbol typeName : String) : Cause :=
  typeMismatch ("an operand for unary " ++ symbol) typeName

end Cause

end ScriptEngine
