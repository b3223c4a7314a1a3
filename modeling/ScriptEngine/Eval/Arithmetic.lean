import ScriptEngine.Fault.Cause
import ScriptEngine.Number.Decimal.Text
import ScriptEngine.Tree.Operator
import ScriptEngine.Value.Basic
import ScriptEngine.Value.Comparison

/-!
This module contains the arithmetic of numbers. Two words make a word, a decimal number makes the
other operand a decimal number, and everything else is floating point arithmetic.
-/

namespace ScriptEngine

/-- Two numbers of the same kind. -/
inductive Operands where
  | words (a b : Int64)
  | floats (a b : Float)
  | decimals (a b : Decimal)

namespace Operands

def float? : Value → Option Float
  | .int i => some i.toFloat
  | .float f => some f
  | .decimal d => d.toFloat?
  | _ => none

def decimal? : Value → Option Decimal
  | .int i => some (.ofWord i)
  | .float f => Decimal.ofFloat? f
  | .decimal d => some d
  | _ => none

def floats? (a b : Value) : Option Operands :=
  match float? a, float? b with
  | some x, some y => some (.floats x y)
  | _, _ => none

/-- The two numbers as decimal numbers, unless one of them is infinite or not a number. -/
def decimals? (a b : Value) : Option Operands :=
  match decimal? a, decimal? b with
  | some x, some y => some (.decimals x y)
  | _, _ => floats? a b

def isNumber : Value → Bool
  | .int _ | .float _ | .decimal _ => true
  | _ => false

/-- Brings two numbers to the same kind. -/
def promote? (a b : Value) : Option Operands :=
  match a, b with
  | .int x, .int y => some (.words x y)
  | .decimal _, _ => if isNumber b then decimals? a b else none
  | _, .decimal _ => if isNumber a then decimals? a b else none
  | _, _ => floats? a b

/-- The cause of a shift by a number of bits that cannot be. -/
def badShift : Cause := .typeMismatch "a non-negative shift count" "Int"

def onWords (op : BinaryOp) (a b : Int64) : Except Cause (Option Value) :=
  match op with
  | .add => .ok (some (.int (a + b)))
  | .sub => .ok (some (.int (a - b)))
  | .mul => .ok (some (.int (a * b)))
  | .div => if b == 0 then .error .divisionByZero else .ok (some (.int (a / b)))
  | .mod => if b == 0 then .error .divisionByZero else .ok (some (.int (a % b)))
  | .pow =>
    if 0 ≤ b.toInt then .ok (some (.int (Word.pow a b.toInt.toNat)))
    else .ok (some (.float (Float.pow a.toFloat b.toFloat)))
  | .bitAnd => .ok (some (.int (a &&& b)))
  | .bitOr => .ok (some (.int (a ||| b)))
  | .bitXor => .ok (some (.int (a ^^^ b)))
  | .shl =>
    match Word.shiftCount? b with
    | some count => .ok (some (.int (Word.shiftLeft a count)))
    | none => .error badShift
  | .shr =>
    match Word.shiftCount? b with
    | some count => .ok (some (.int (Word.shiftRight a count)))
    | none => .error badShift
  | _ => .ok none

def onFloats (op : BinaryOp) (a b : Float) : Except Cause (Option Value) :=
  match op with
  | .add => .ok (some (.float (a + b)))
  | .sub => .ok (some (.float (a - b)))
  | .mul => .ok (some (.float (a * b)))
  | .div => if b == 0.0 then .error .divisionByZero else .ok (some (.float (a / b)))
  | .mod => if b == 0.0 then .error .divisionByZero else .ok (some (.float (Binary64.remainder a b)))
  | .pow => .ok (some (.float (Float.pow a b)))
  | _ => .ok none

/-- A power of decimal numbers: exact steps for a whole exponent, floating point for the others. -/
def decimalPow (precision : Nat) (base exponent : Decimal) : Value :=
  match exponent.isIntegral, exponent.toWord? with
  | true, some n => .decimal (base.powInt precision n.toInt)
  | _, _ =>
    let nan := Float.ofBits 0x7ff8000000000000
    .float (Float.pow (base.toFloat?.getD nan) (exponent.toFloat?.getD nan))

def onDecimals (precision : Nat) (op : BinaryOp) (a b : Decimal) : Except Cause (Option Value) :=
  match op with
  | .add => .ok (some (.decimal (.round precision (a.add b))))
  | .sub => .ok (some (.decimal (.round precision (a.sub b))))
  | .mul => .ok (some (.decimal (.round precision (a.mul b))))
  | .div =>
    if b.isZero then .error .divisionByZero
    else .ok (some (.decimal (.round precision (a.div precision b))))
  | .mod =>
    if b.isZero then .error .divisionByZero
    else .ok (some (.decimal (.round precision (a.mod b))))
  | .pow => .ok (some (decimalPow precision a b))
  | _ => .ok none

/-- Applies an operator to two numbers. There is no result if it is none of arithmetic. -/
def apply (precision : Nat) (op : BinaryOp) : Operands → Except Cause (Option Value)
  | words a b => onWords op a b
  | floats a b => onFloats op a b
  | decimals a b => onDecimals precision op a b

/-- The order of two floating point numbers. With a `NaN` there is none. -/
def floatOrder? (a b : Float) : Option Ordering :=
  if a < b then some .lt
  else if a == b then some .eq
  else if b < a then some .gt
  else none

/-- Compares two numbers. -/
def order : Operands → Comparison
  | words a b => .ofOrdering (compare a.toInt b.toInt)
  | floats a b => .ofOrdering? (floatOrder? a b)
  | decimals a b => .ofOrdering (a.order b)

end Operands

end ScriptEngine
