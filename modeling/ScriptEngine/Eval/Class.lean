import ScriptEngine.Eval.Text

/-!
This module contains the definition of classes and the extension of existing types.
-/

namespace ScriptEngine

namespace Run

/-- Raises an error unless something may be exported here. -/
def checkExport (exported : Bool) : Run Unit := do
  if exported && !(← getStack).isModuleTop then
    raise .misplacedExport

/-- Marks a function as a method of a class. Other values stay as they are. -/
def belongTo (owner : TypeRef) (value : Value) : Run Value := do
  match value with
  | .func ref =>
    let closure := (← getHeap).closure ref
    newClosure { closure with owner := some owner }
  | _ => return value

/-- Makes a class. Its members are set once all of them were evaluated. -/
def declare (name : String) (bases : List TypeRef) (body : TypeRef → Run (List (String × Value))) : Run TypeRef := do
  let type ← alloc (·.newClass name bases)
  let members ← body type
  modifyHeap fun h => { h with types := h.types.setMembers type members }
  return type

end Run

namespace Machine

/-- Evaluates the bases of a class. -/
def evalBases (m : Machine) : List Expr → Run (List TypeRef)
  | [] => return []
  | base :: bases => do
    let type ← m.evalType "a type as base class" base
    return type :: (← m.evalBases bases)

/-- Evaluates the members of a class. -/
def evalMembers (m : Machine) (owner : TypeRef) : List MemberDef → Run (List (String × Value))
  | [] => return []
  | .mk key value :: defs => do
    let (key, value) ← Run.lettingGo do
      let key ← m.evalKey key
      return (key, ← Run.belongTo owner (← m.eval value))
    Run.hold value
    return (key, value) :: (← m.evalMembers owner defs)

/-- Runs the definition of a class. Its name is bound before its members are evaluated. -/
def execClass (m : Machine) (code : ClassDef) : Run Unit := do
  match code with
  | .mk name exported bases members statics =>
    Run.checkExport exported
    let bases ← m.evalBases bases
    let type ← Run.declare name bases fun type => do
      Run.hold (.type type)
      Run.defineLocal name (.type type)
      Run.lettingGo (m.evalMembers type members)
    let statics ← m.evalMembers type statics
    Run.modifyHeap fun h => { h with types := h.types.setStatics type statics }
    if exported then
      Run.setExport name (.type type)
    Run.setRetVal (.type type)

/-- Adds members to a type one by one. Exported ones are found under the number of the type. -/
def execExtensions (m : Machine) (exported : Bool) (id : Int) : List MemberDef → Run Unit
  | [] => return
  | .mk key value :: defs => do
    Run.lettingGo do
      let key ← m.evalKey key
      let value ← m.eval value
      if exported then
        Run.setExport (toString id ++ "#" ++ key) value
      Run.modifyWorld fun w => { w with extensions := w.extensions.insert id key value }
    m.execExtensions exported id defs

/-- Runs the extension of a type. -/
def execExtend (m : Machine) (exported : Bool) (target : Expr) (items : List MemberDef) : Run Unit := do
  Run.checkExport exported
  let type ← m.evalType "a type to extend" target
  m.execExtensions exported ((← Run.getHeap).types.id type) items
  Run.setRetVal (.type type)

end Machine

end ScriptEngine
