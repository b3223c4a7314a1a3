import ScriptEngine.Eval.Compare
import ScriptEngine.Eval.Exception
import ScriptEngine.Eval.Frame

/-!
This module contains the operators on values. What the language itself can do with the operands
comes first, then the hook of the left operand.
-/

namespace ScriptEngine

namespace Run

variable {α : Type}

/-- The most items or bytes that repeating a value may give. -/
def repeatLimit : Nat := 0x10000000

/-- How often a value of `unit` items is repeated. A negative count gives nothing. -/
def repeatCount (unit : Nat) (count : Int64) : Run Nat :=
  if unit = 0 then return 0
  else if unit * count.toInt.toNat ≤ repeatLimit then return count.toInt.toNat
  else raise (.repeatTooLarge count repeatLimit)

/-- When debugging, notes what the host's values among the operands hold. -/
def withHostNotes (e : Error) (operands : List Value) : Run Error := do
  if !(← getSettings).debug then
    return e
  let heap ← getHeap
  return operands.foldl
    (fun e value =>
      match value with
      | .host ref =>
        let cell := heap.host ref
        e.withNote ⟨"host value " ++ cell.name ++ " holds " ++ cell.holds, none⟩
      | _ => e)
    e

/-- The error that an operator does not fit its operands. -/
def operandMismatch (op : BinaryOp) (left right : Value) : Run α := do
  let heap ← getHeap
  let e := Error.ofCause (.operandMismatch op.verb (heap.typeName left) (heap.typeName right))
  raiseError (← withHostNotes e [left, right])

end Run

namespace Machine

/-- What the language does with two operands that are not numbers. -/
def combine? (m : Machine) (op : BinaryOp) (left right : Value) : Run (Option Value) := do
  match op, left, right with
  | .add, .str s, _ => return some (.str (s ++ (← m.stringify right)))
  | .add, .array a, .array b =>
    let heap ← Run.getHeap
    return some (← Run.newArray (heap.items a ++ heap.items b))
  | .add, .bytes a, .bytes b =>
    let heap ← Run.getHeap
    return some (← Run.newBytes (heap.data a ++ heap.data b))
  | .mul, .str s, .int n =>
    let count ← Run.repeatCount s.utf8ByteSize n
    return some (.str (String.join (List.replicate count s)))
  | .mul, .array a, .int n =>
    let items := (← Run.getHeap).items a
    let count ← Run.repeatCount items.size n
    return some (← Run.newArray (List.replicate count items.toList).flatten.toArray)
  | .mod, .str template, values =>
    let values := match (← Run.getHeap).items? values with
      | some items => items.toList
      | none => [values]
    return some (.str (← m.format template values))
  | _, _, _ => return none

/-- What the language does with two operands. -/
def builtinBinary? (m : Machine) (op : BinaryOp) (left right : Value) : Run (Option Value) := do
  match Operands.promote? left right with
  | some operands => Run.ofExcept (operands.apply (← Run.getSettings).precision op)
  | none => m.combine? op left right

/-- The member that overrides an operator on a value. -/
def binaryHook? (op : BinaryOp) (left : Value) : Run (Option Value) :=
  match op.hook? with
  | some name => Run.findHook left name
  | none => return none

/-- Whether a value is of a type. -/
def typeTest (m : Machine) (left right : Value) : Run Value := do
  match ← Run.findHook left "__is__" with
  | some hook => m.callHook hook right
  | none =>
    match right.unbind with
    | .type type =>
      let heap ← Run.getHeap
      return .bool (heap.types.isSubOf (heap.typeOf left) type)
    | other => Run.mismatch "a type on the right of 'is'" other

/-- Applies a binary operator to two values. -/
def binaryValues (m : Machine) (op : BinaryOp) (left right : Value) : Run Value := do
  if op == .is then
    return ← m.typeTest left right
  if let some value ← m.builtinBinary? op left right then
    return value
  if let some hook ← binaryHook? op left then
    return ← m.callHook hook right
  match op, right with
  | .add, .str _ =>
    let a ← m.stringify left
    let b ← m.stringify right
    return .str (a ++ b)
  | _, _ => Run.operandMismatch op left right

/--
Evaluates `&&` or `||`, which give one of their operands. A hook of the left operand gets the right
operand, which is evaluated for it.
-/
def evalLogical (m : Machine) (op : BinaryOp) (left right : Expr) : Run Value := do
  let l ← m.evalHeld left
  match ← binaryHook? op l with
  | some hook =>
    let r ← m.eval right
    m.callHook hook r
  | none =>
    let truthy ← m.isTruthy l
    if truthy == (op == .or) then return l else m.eval right

/--
Evaluates `??`. The right side runs if the left one raises an error that can be handled or gives
nothing, and sees the exception as `__err__`.
-/
def evalCoalesce (m : Machine) (left right : Expr) : Run Value := do
  let handle := fun (exception : Value) => m.withBlock do
    Run.forceLocal "__err__" exception
    m.eval right
  match ← Run.capture (m.eval left) with
  | .ok value => if value.isNilOrUndefined then handle .nil else return value
  | .error e => if e.isFatal then Run.raiseError e else handle (← Run.exceptionValue e)

def evalBinary (m : Machine) (op : BinaryOp) (left right : Expr) : Run Value := do
  match op with
  | .and | .or => m.evalLogical op left right
  | .coalesce => m.evalCoalesce left right
  | _ =>
    let l ← m.evalHeld left
    let r ← m.evalHeld right
    m.binaryValues op l r

/-- Applies a unary operator to a value. -/
def unaryValue (m : Machine) (op : UnaryOp) (operand : Value) : Run Value := do
  match op, operand with
  | .not, value => return .bool (!(← m.isTruthy value))
  | .neg, .int i => return .int (-i)
  | .neg, .float f => return .float (-f)
  | .neg, .decimal d => return .decimal d.neg
  | .bitNot, .int i => return .int (~~~i)
  | _, value =>
    let e := Error.ofCause (.unaryMismatch op.symbol ((← Run.getHeap).typeName value))
    Run.raiseError (← Run.withHostNotes e [value])

/-- Evaluates a chain of comparisons up to the first that does not hold. -/
def evalChain (m : Machine) (left : Value) : List Link → Run Value
  | [] => return .bool true
  | .mk op operand :: links => do
    let right ← m.evalHeld operand
    if ← m.compareOp op left right then m.evalChain right links else return .bool false

end Machine

end ScriptEngine
