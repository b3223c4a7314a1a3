import ScriptEngine.Eval.Access
import ScriptEngine.Heap.Display

/-!
This module contains whether a value counts as true and what its text is, with the hooks of the
value taken into account, and the filling of templates.
-/

namespace ScriptEngine

namespace Machine

/-- Whether a value counts as true. Objects may say so themselves. -/
def isTruthy (m : Machine) (value : Value) : Run Bool := do
  match value with
  | .object _ =>
    match ← Run.findHook value "__true__" with
    | some hook =>
      let answer ← m.invoke hook .undefined []
      return (← Run.getHeap).isTrue answer
    | none => return (← Run.getHeap).isTrue value
  | _ => return (← Run.getHeap).isTrue value

/-- The text of a value without its hooks. -/
def display (m : Machine) (value : Value) : Run String := do
  Run.ofOption ((← Run.getHeap).display? m.fuel value)

def stringify.go (m : Machine) : Nat → Value → Run String
  | 0, _ => Run.exhausted
  | depth + 1, value => do
    match value with
    | .str s => return s
    | .array ref =>
      let items := (← Run.getHeap).items ref
      let parts ← items.toList.mapM fun item => go m depth item
      return Heap.listText parts
    | .object handle =>
      match ← Run.findHook value "__str__" with
      | some hook => m.display (← m.invoke hook .undefined [])
      | none =>
        let entries := ((← Run.getHeap).members handle).entries
        let parts ← entries.mapM fun e => do
          let text ← go m depth e.2
          return e.1 ++ ": " ++ text
        return Heap.recordText parts
    | other =>
      match ← Run.findHook other "__str__" with
      | some hook => m.display (← m.invoke hook .undefined [])
      | none => m.display other

/-- The text of a value. A `__str__` counts, also inside of arrays and objects. -/
def stringify (m : Machine) (value : Value) : Run String := stringify.go m m.fuel value

/-- Evaluates the name of a member. -/
def evalKey (m : Machine) (key : Expr) : Run String := do m.stringify (← m.evalHeld key)

/-- Evaluates a member and its name into an object. -/
def evalEntry (m : Machine) (handle : Handle) (key value : Expr) : Run Unit :=
  Run.lettingGo do
    let key ← m.evalKey key
    let value ← m.eval value
    Run.modifyHeap (·.setMember handle key value)

/-- The text that takes the place of a placeholder, and the values that are left. -/
def fillPlaceholder (m : Machine) (placeholder : String) : List Value → Run (String × List Value)
  | [] => return (placeholder, [])
  | value :: values => return (← m.stringify value, values)

def format.go (m : Machine) (out : String) (values : List Value) : List Char → Run String
  | [] => return out
  | '{' :: '}' :: cs => do
    let (text, values) ← m.fillPlaceholder "\x7b\x7d" values
    go m (out ++ text) values cs
  | '%' :: 'v' :: cs => do
    let (text, values) ← m.fillPlaceholder "%v" values
    go m (out ++ text) values cs
  | '%' :: 's' :: cs => do
    let (text, values) ← m.fillPlaceholder "%s" values
    go m (out ++ text) values cs
  | '%' :: 'd' :: cs => do
    let (text, values) ← m.fillPlaceholder "%d" values
    go m (out ++ text) values cs
  | '%' :: '%' :: cs => go m (out.push '%') values cs
  | c :: cs => go m (out.push c) values cs

/--
Fills the placeholders of a template, one value after another. Placeholders without a value stay,
and two percent signs stand for one.
-/
def format (m : Machine) (template : String) (values : List Value) : Run String :=
  format.go m "" values template.toList

end Machine

end ScriptEngine
