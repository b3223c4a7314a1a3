import ScriptEngine.Eval.Operators
import ScriptEngine.Tree.Build

/-!
This module contains assignments and local definitions.
-/

namespace ScriptEngine

namespace Machine

/-- Writes a value to what a target stands for. -/
def assignTo (m : Machine) (target : Target) (value : Value) : Run Unit := do
  match target with
  | .ident name => Run.assignVar name value
  | .member owner name =>
    let owner ← m.evalHeld owner
    Run.setMember owner name value
  | .index owner key =>
    let owner ← m.evalHeld owner
    let key ← m.evalHeld key
    m.setIndex owner key value

/-- Defines names by position. With `rest` the last one gets all items that are left. -/
def defineItems (rest : Bool) : List String → List Value → Run Unit
  | [], _ => return
  | [name], items => do
    if rest then
      Run.defineLocal name (← Run.newArray items.toArray)
    else
      Run.defineLocal name (items.headD .undefined)
  | name :: names, items => do
    Run.defineLocal name (items.headD .undefined)
    defineItems rest names items.tail

/-- Defines names as the members with these names. -/
def defineMembers (m : Machine) (value : Value) : List String → Run Unit
  | [] => return
  | name :: names => do
    Run.defineLocal name (← m.getMember value name)
    m.defineMembers value names

/-- Evaluates a local definition, which gives the whole value. -/
def evalDefine (m : Machine) (names : List String) (shape : Shape) (value : Expr) : Run Value := do
  let value ← m.evalHeld value
  match shape with
  | .single =>
    match names with
    | [] => return value
    | name :: _ => Run.defineLocal name value
  | .items rest =>
    match (← Run.getHeap).items? value with
    | some items => defineItems rest names items.toList
    | none => Run.mismatch "Array to destructure" value
  | .members => m.defineMembers value names
  return value

def defineEntries : List (String × Value) → Run Unit
  | [] => return
  | (name, value) :: rest => do
    Run.defineLocal name value
    defineEntries rest

/-- Defines every member of an object as a local. -/
def evalDefineAll (m : Machine) (value : Expr) : Run Value := do
  let value ← m.eval value
  match value with
  | .object handle =>
    defineEntries ((← Run.getHeap).members handle).entries
    return value
  | other => Run.mismatch "Object" other

/-- Adds to a target. The result is the value before or after. -/
def evalIncrement (m : Machine) (target : Target) (delta : Int64) (before : Bool) : Run Value := do
  let old ← m.evalHeld target.toExpr
  let new ← m.binaryValues .add old (.int delta)
  Run.hold new
  m.assignTo target new
  return if before then new else old

end Machine

end ScriptEngine
