import ScriptEngine.Eval.Assign
import ScriptEngine.Eval.Call
import ScriptEngine.Eval.Iterate
import ScriptEngine.Eval.Modules

/-!
This module contains the evaluation of expressions.
-/

namespace ScriptEngine

namespace Slice

/-- A bound of a slice within the length. A negative one counts from the end. -/
def clampBound (length : Nat) (bound : Int64) : Nat := min (Word.fromStart bound length).toNat length

/-- The part that a slice takes: from the first place up to but not with the second. -/
def range (length : Nat) (first last : Option Int64) : Nat × Nat :=
  let first := (first.map (clampBound length)).getD 0
  let last := (last.map (clampBound length)).getD length
  (first, max first last)

end Slice

namespace Machine

def evalOptional (m : Machine) : Option Expr → Run Value
  | some e => m.eval e
  | none => return .undefined

/-- Evaluates the items of an array literal. -/
def evalItems (m : Machine) (out : Array Value) : List ArrayItem → Run (Array Value)
  | [] => return out
  | .mk value condition spread :: items => do
    let wanted ← match condition with
      | some condition => m.isTruthy (← m.eval condition)
      | none => pure true
    if wanted then
      let value ← m.eval value
      if spread then
        match (← Run.getHeap).items? value with
        | some parts =>
          Run.holdAll parts.toList
          m.evalItems (out ++ parts) items
        | none => Run.mismatch "Array to expand" value
      else
        Run.hold value
        m.evalItems (out.push value) items
    else
      m.evalItems out items

/-- Evaluates the items of an object literal into an object. -/
def evalEntries (m : Machine) (handle : Handle) : List ObjectItem → Run Unit
  | [] => return
  | .entry key value :: items => do
    m.evalEntry handle key value
    m.evalEntries handle items
  | .spread source :: items => do
    match ← m.eval source with
    | .object other =>
      let entries := ((← Run.getHeap).members other).entries
      Run.modifyHeap fun h => entries.foldl (fun h e => h.setMember handle e.1 e.2) h
      m.evalEntries handle items
    | other => Run.mismatch "Object to expand" other

def evalObject (m : Machine) (items : List ObjectItem) : Run Value := do
  let handle ← Run.alloc (·.newObject .empty)
  Run.hold (.object handle)
  m.evalEntries handle items
  return .object handle

/-- Evaluates a bound of a slice. -/
def evalBound (m : Machine) : Option Expr → Run (Option Int64)
  | none => return none
  | some bound => do
    match ← m.eval bound with
    | .int i => return some i
    | .undefined | .nil => return none
    | other => Run.mismatch "Int slice bound" other

/-- The part of a text, an array or a byte string between two bounds. -/
def sliceValue (container : Value) (first last : Option Int64) : Run Value := do
  match container with
  | .str s =>
    let chars := s.toList
    let (b, e) := Slice.range chars.length first last
    return .str (String.ofList ((chars.drop b).take (e - b)))
  | .array ref =>
    let items := (← Run.getHeap).items ref
    let (b, e) := Slice.range items.size first last
    Run.newArray (items.extract b e)
  | .bytes ref =>
    let data := (← Run.getHeap).data ref
    let (b, e) := Slice.range data.size first last
    Run.newBytes (data.extract b e)
  | other => Run.mismatch "Str, Array or Bytes to slice" other

/-- Whether a value is equal to one of several. -/
def equalsAny (m : Machine) (input : Value) : List Expr → Run Bool
  | [] => return false
  | candidate :: rest => do
    let candidate ← m.eval candidate
    if ← m.valuesEqual input candidate then return true else m.equalsAny input rest

/--
Whether a value lies on the right side of a bound: `inside` is the result of a comparison that is
accepted, besides equality if the bound itself is included.
-/
def withinBound (m : Machine) (input : Value) (bound : Option Expr) (inside : Comparison) (included : Bool) :
    Run Bool := do
  match bound with
  | none => return true
  | some bound =>
    let bound ← m.eval bound
    let c ← m.compareValues input bound
    return c == inside || included && c == .eq

/-- Whether a value matches a pattern of `when` or `switch`. -/
def valueMatches (m : Machine) (pattern : Pattern) (input : Value) : Run Bool := do
  match pattern with
  | .oneOf values => m.equalsAny input values
  | .within min max includeMin includeMax =>
    if ← m.withinBound input min .gt includeMin then m.withinBound input max .lt includeMax
    else return false

/-- Evaluates the action of the first case whose condition holds. -/
def evalWhen (m : Machine) (otherwise : Option Expr) : List WhenCase → Run Value
  | [] => m.evalOptional otherwise
  | .mk condition action :: cases => do
    if ← m.isTruthy (← m.evalHeld condition) then m.eval action else m.evalWhen otherwise cases

/-- Evaluates the result of the first case whose pattern a value matches. -/
def evalWhenValue (m : Machine) (input : Value) (otherwise : Option Expr) : List MatchCase → Run Value
  | [] => m.evalOptional otherwise
  | .mk pattern result :: cases => do
    if ← m.valueMatches pattern input then m.eval result else m.evalWhenValue input otherwise cases

/-- A function literal becomes a function that sees the current scope. -/
def makeClosure (code : FuncDef) : Run Value := do
  let scope ← Run.currentScope
  Run.newClosure ⟨code, scope, none⟩

/-- The first of the named members that can be called. -/
def callableMember? (m : Machine) (value : Value) : List String → Run (Option Value)
  | [] => return none
  | name :: names => do
    let member ← m.getMember value name
    if ← Run.isCallable member then return some member else m.callableMember? value names

/-- The call that releases a value. -/
def evalCloser (m : Machine) (value : Value) (closer : Closer) : Run (Value × List Value) := do
  match closer with
  | .func code => return (← makeClosure code, [value])
  | .method name =>
    match ← m.callableMember? value [name] with
    | some member => return (member, [])
    | none => Run.fail ("use value without " ++ name ++ " method")
  | .standard =>
    match ← m.callableMember? value ["close", "Close"] with
    | some member => return (member, [])
    | none => Run.fail "use value without close/Close method"

/-- Evaluates a value that is released when the block ends. -/
def evalUse (m : Machine) (value : Expr) (closer : Closer) : Run Value := do
  let value ← m.evalHeld value
  let (callee, args) ← m.evalCloser value closer
  Run.addBlockDefer callee args true
  return value

/-- Evaluates an expression, one level deep. -/
def evalExpr (m : Machine) (e : Expr) : Run Value := do
  match e with
  | .int i => return .int i
  | .float f => return .float f
  | .decimal text =>
    match Decimal.read? text with
    | some d => return .decimal d
    | none => Run.mismatch "a decimal literal" (.str text)
  | .str s => return .str s
  | .bytes data => Run.newBytes data.toArray
  | .bool b => return .bool b
  | .nil => return .nil
  | .undefined => return .undefined
  | .toStr operand => return .str (← m.stringify (← m.evalHeld operand))
  | .array items => Run.newArray (← m.evalItems #[] items)
  | .object items => m.evalObject items
  | .func code => makeClosure code
  | .ident name => Run.lookup name
  | .member owner name => m.getMember (← m.evalHeld owner) name
  | .index owner key =>
    let owner ← m.evalHeld owner
    let key ← m.evalHeld key
    m.getIndex owner key
  | .slice container first last =>
    let container ← m.evalHeld container
    let first ← m.evalBound first
    let last ← m.evalBound last
    sliceValue container first last
  | .call code => m.evalCall code
  | .new cls args => m.evalNew cls args
  | .binary op left right => m.evalBinary op left right
  | .unary op operand => m.unaryValue op (← m.evalHeld operand)
  | .compare first rest => m.evalChain (← m.evalHeld first) rest
  | .assign target value =>
    let value ← m.evalHeld value
    m.assignTo target value
    return value
  | .define names shape value => m.evalDefine names shape value
  | .defineAll value => m.evalDefineAll value
  | .increment target delta before => m.evalIncrement target delta before
  | .arrayOf head item => m.evalArrayOf head item
  | .objectOf head key value => m.evalObjectOf head key value
  | .when cases otherwise => m.evalWhen otherwise cases
  | .whenValue input cases otherwise => m.evalWhenValue (← m.evalHeld input) otherwise cases
  | .use value closer => m.evalUse value closer
  | .load path => m.importModule path false

end Machine

end ScriptEngine
