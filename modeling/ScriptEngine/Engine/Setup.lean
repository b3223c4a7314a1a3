import ScriptEngine.Host.Basic

/-!
This module contains the state that an engine starts in: the types and functions that every engine
has, and a first context.
-/

namespace ScriptEngine

namespace Engine

/-- The state before anything is in it. Classes are numbered from after `lastId`. -/
def bareState (settings : Settings) (sink : Sink) (lastId : Int) : State where
  heap :=
    { arrays := #[], bytes := #[], instances := #[], closures := #[], natives := #[], hosts := #[]
      types := Types.builtin lastId, scopes := (Scopes.newRoot .empty).2, nextTag := 0 }
  world :=
    { settings := settings, globals := ⟨0⟩, extensions := .empty, modules := .empty, sink := sink
      threadType := BuiltinType.object.ref }
  context := .new ⟨0⟩ .unknown default
  held := []

/-- Gives a type one of its methods. -/
def installMethod (method : Method) : Run Unit := do
  let owner := method.owner
  let native ← Run.newNative ⟨owner.name ++ "." ++ method.name, [], .method method⟩
  Run.modifyHeap fun h => { h with types := h.types.setMember owner.ref method.name native }

def installType (b : BuiltinType) : Run Unit := Run.setGlobal b.name (.type b.ref)

def installBuiltin (function : Builtin) : Run Unit := do
  Run.setGlobal function.name (← Run.newNative ⟨function.name, function.params, .builtin function⟩)

/-- The class of the handles of spawned calls. -/
def threadClass : HostClass where
  name := "Thread"
  methods := [⟨"join", [], .join⟩, ⟨"await", [], .join⟩, ⟨"error", [], .joinError⟩]

/-- Puts everything in place that scripts find, and enters a fresh context. -/
def install : Run Unit := do
  Method.all.forM installMethod
  BuiltinType.all.forM installType
  Builtin.all.forM installBuiltin
  let threadType ← threadClass.build
  Run.modifyWorld fun w => { w with threadType := threadType }
  let context ← Run.newContext .unknown
  Run.modifyContext fun _ => context

/-- The state that a computation leaves, whether it fails or not. -/
def stateAfter {α : Type} (act : Run α) (s : State) : State :=
  match act s with
  | .ok _ s => s
  | .error _ s => s

/--
The state that an engine starts in. Classes are numbered from after `lastId`, which has to be above
the numbers of the types that every engine has.
-/
def start (settings : Settings) (sink : Sink) (lastId : Int) : State :=
  stateAfter install (bareState settings sink lastId)

end Engine

end ScriptEngine
