import ScriptEngine.State.Frames

/-!
This module contains what a host builds for its scripts: global names, functions, values and classes
of its own, and iterators.
-/

namespace ScriptEngine

namespace Run

/-- Binds a global name, whether it was bound or not. -/
def setGlobal (name : String) (value : Value) : Run Unit := do
  let globals := (← getWorld).globals
  modifyHeap fun h => { h with scopes := h.scopes.force globals name value }

def getGlobal? (name : String) : Run (Option Value) := do
  let globals := (← getWorld).globals
  return (← getHeap).scopes.lookup? globals name

/-- A function of the host. -/
def newHostFunction (name : String) (call : HostCall) : Run Value := newNative ⟨name, [], .host call⟩

/-- A value that only the host understands, with a description of what it holds. -/
def newHostValue (name holds : String) (payload : Payload) : Run Value :=
  alloc (·.newHost ⟨name, holds, payload⟩)

/--
An object that can be iterated over. The host's function gives an array with the next item, or
anything else at the end.
-/
def newIterator (next : HostCall) : Run Value := do
  let ended ← alloc (·.emptyArray)
  let step ← newNative ⟨"next", [], .step next ended⟩
  let iter ← newNative ⟨"__iter__", [], .iterator step⟩
  newObject [("__iter__", iter)]

end Run

/-- A method of a class of the host. -/
structure HostMethod where
  name : String
  params : List String
  routine : Routine
deriving Inhabited

/-- A class of the host. -/
structure HostClass where
  name : String
  bases : List TypeRef := []
  /-- What initialises an instance. -/
  init : Option HostCall := none
  methods : List HostMethod := []
  statics : List (String × Value) := []
deriving Inhabited

namespace HostClass

def addMethod (cls : String) (type : TypeRef) (method : HostMethod) : Run Unit := do
  let native ← Run.newNative ⟨cls ++ "." ++ method.name, method.params, method.routine⟩
  Run.modifyHeap fun h => { h with types := h.types.setMember type method.name native }

/-- Makes the type of a class. -/
def build (cls : HostClass) : Run TypeRef := do
  let type ← Run.alloc (·.newClass cls.name cls.bases)
  let init := cls.init.toList.map fun call => ⟨"__init__", [], .hostInit call⟩
  (init ++ cls.methods).forM (addMethod cls.name type)
  Run.modifyHeap fun h => { h with types := h.types.setStatics type cls.statics }
  return type

end HostClass

end ScriptEngine
