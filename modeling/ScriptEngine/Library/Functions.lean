import ScriptEngine.Eval.Compare
import ScriptEngine.Eval.Modules
import ScriptEngine.Eval.Spawn
import ScriptEngine.Text.Blank

/-!
This module contains the functions that every script can call by name.
-/

namespace ScriptEngine

namespace Library

/-- An argument; one that is missing is `undefined`. -/
def arg (args : List Value) (i : Nat) : Value := args.getD i .undefined

/-- The texts of all arguments with blanks between them. -/
def joinArgs (m : Machine) (args : List Value) : Run String := do
  let parts ← args.mapM m.stringify
  return " ".intercalate parts

/-- The word that a value is converted to. -/
def toInt? : Value → Option Int64
  | .int i => some i
  | .float f => some f.toInt64
  | .decimal d => d.toWord?
  | .bool b => some (if b then 1 else 0)
  | .str s => Word.read? (Text.trim s)
  | _ => none

/-- The floating point number that a value is converted to. -/
def toFloat? : Value → Option Float
  | .int i => some i.toFloat
  | .float f => some f
  | .decimal d => d.toFloat?
  | .str s => FloatText.read? (Text.trim s)
  | _ => none

/-- The arguments of a function that takes words only. -/
def wordArgs : List Value → Run (List Int64)
  | [] => return []
  | .int i :: rest => return i :: (← wordArgs rest)
  | other :: _ => Run.mismatch "Int range bound" other

def range.go (last step : Int64) : Nat → Int64 → Array Value → Array Value
  | 0, _, out => out
  | fuel + 1, i, out =>
    if 0 < step ∧ i < last ∨ step < 0 ∧ last < i then
      match Word.checkedAdd i step with
      | some next => go last step fuel next (out.push (.int i))
      | none => out.push (.int i)
    else
      out

/--
The words from `first` on in steps, up to but not with `last`. There are no more of them than there
are words between the two.
-/
def range (first last step : Int64) : Array Value :=
  range.go last step ((last.toInt - first.toInt).natAbs + 1) first #[]

/-- The first and the last bound and the step of a range. -/
def rangeBounds : List Int64 → Run (Int64 × Int64 × Int64)
  | [last] => return (0, last, 1)
  | [first, last] => return (first, last, 1)
  | [first, last, step] => return (first, last, step)
  | _ => Run.fail "range usage: range([begin,] end[, step])"

def rangeArray (args : List Value) : Run Value := do
  let (first, last, step) ← rangeBounds (← wordArgs args)
  if step == 0 then
    Run.fail "range step must not be 0"
  else
    Run.newArray (range first last step)

def pick.go (m : Machine) (wanted : Comparison) (best : Value) : List Value → Run Value
  | [] => return best
  | item :: items => do
    let c ← m.compareValues item best
    go m wanted (if c == wanted then item else best) items

/-- The first item that none of the others goes before, where `wanted` says what goes before. -/
def pick (m : Machine) (wanted : Comparison) (args : List Value) : Run Value := do
  let items ← do
    match args with
    | [.array ref] => pure ((← Run.getHeap).items ref).toList
    | _ => pure args
  match items with
  | [] => return .undefined
  | best :: rest => pick.go m wanted best rest

/-- Runs one of the functions. -/
def runBuiltin (m : Machine) (function : Builtin) (args : List Value) : Run Value := do
  let value := arg args 0
  match function with
  | .println =>
    Run.println (← joinArgs m args)
    return .undefined
  | .print =>
    Run.print (← joinArgs m args)
    return .undefined
  | .str => return .str (← m.stringify value)
  | .int =>
    match toInt? value with
    | some i => return .int i
    | none => Run.mismatch "a value convertible to Int" value
  | .float =>
    match toFloat? value with
    | some f => return .float f
    | none => Run.mismatch "a value convertible to Float" value
  | .len =>
    match (← Run.getHeap).length? value with
    | some n => return .int (Word.ofNat n)
    | none => Run.mismatch "a value with a length" value
  | .type => return .type ((← Run.getHeap).typeOf value)
  | .typeName => return .str ((← Run.getHeap).typeName value)
  | .range => rangeArray args
  | .isUndefined => return .bool value.isUndefined
  | .isCallable => return .bool (← Run.isCallable value)
  | .isArray =>
    match value with
    | .array _ => return .bool true
    | _ => return .bool false
  | .isObject =>
    match value with
    | .object _ => return .bool true
    | _ => return .bool false
  | .spawn =>
    match args with
    | [] => Run.fail "spawn requires a callable"
    | callee :: rest => m.startThread callee rest
  | .load =>
    match value with
    | .str name => m.importModule name ((← Run.getHeap).isTrue (arg args 1))
    | other => Run.mismatch "Str module name" other
  | .min => pick m .lt args
  | .max => pick m .gt args

end Library

end ScriptEngine
