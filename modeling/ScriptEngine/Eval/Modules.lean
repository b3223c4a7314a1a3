import ScriptEngine.State.Machine

/-!
This module contains the import of modules. A loaded module is kept, so that all imports give the
same value.
-/

namespace ScriptEngine

namespace Machine

/-- Asks the host for a module. -/
def loadModule (m : Machine) (name : String) (modified : Int64) : Run Module := do
  match m.importer with
  | none => Run.raise (.missingModule name)
  | some load =>
    match ← load name modified with
    | none => Run.raise (.missingModule name)
    | some loaded => return loaded

/-- Keeps a module, unless its value is `undefined`. -/
def keepModule (name : String) (loaded : Module) : Run Value := do
  if !loaded.value.isUndefined then
    Run.modifyWorld fun w => { w with modules := w.modules.put name loaded }
  return loaded.value

/--
Imports a module. One that is kept is given as it is, unless a reload is forced and it can change; it
also stays if the host reports the timestamp that it was loaded with.
-/
def importModule (m : Machine) (name : String) (forceReload : Bool) : Run Value := do
  match (← Run.getWorld).modules.get? name with
  | none => keepModule name (← m.loadModule name 0)
  | some kept =>
    if !forceReload || kept.modified == 0 then
      return kept.value
    Run.hold kept.value
    let loaded ← m.loadModule name kept.modified
    if loaded.modified == kept.modified then return kept.value else keepModule name loaded

end Machine

namespace Run

/-- Drops a module, so that the next import loads it again, and gives the value that it had. -/
def forgetModule (name : String) : Run (Option Value) := do
  let kept := (← getWorld).modules.get? name
  modifyWorld fun w => { w with modules := w.modules.erase name }
  return kept.map Module.value

end Run

end ScriptEngine
