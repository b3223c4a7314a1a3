import ScriptEngine.Engine.Machine
import ScriptEngine.Engine.Report
import ScriptEngine.Engine.Setup

/-!
This module contains the engine that a host runs modules with. Every run has a context of its own;
globals, extensions of types and loaded modules stay from one run to the next.
-/

namespace ScriptEngine

namespace Engine

/-- How deep evaluations may be nested, and how often loops may go round, before they are given up. -/
def defaultFuel : Nat := 0xffffffffff

/-- Runs a module in a fresh context and gives its exports, or a report of the error. -/
def run (m : Machine) (stmts : List Stmt) : Run (Except Report Value) := do
  let context ← Run.newContext .unknown
  let (result, _) ← Run.inContext context (Run.capture (m.runModule stmts))
  match ← Run.ofHalting result with
  | .ok value => return .ok value
  | .error e => return .error (.ofError e)

/-- The output since the last call, if it is kept. -/
def output : Run (Option String) := do
  let sink := (← Run.getWorld).sink
  if sink.isCapturing then
    let (text, sink) := sink.take
    Run.modifyWorld fun w => { w with sink := sink }
    return some text
  else
    return none

end Engine

end ScriptEngine
